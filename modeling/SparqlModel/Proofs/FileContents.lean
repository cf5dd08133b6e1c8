import Mathlib.Data.List.Forall2
import SparqlModel.Config.Workspace
import SparqlModel.Proofs.Names
import SparqlModel.Proofs.Registration
import SparqlModel.Proofs.TextParts

/-!
# What the content of a file states

The prefixes, the model data and the queries of a configuration are parts with a file each. What a
part is depends on nothing but the content of its file and on the reader: not on the other files,
nor on where the directory lies. Likewise, a file that is written leaves the content of every other
file as it is.
-/

namespace SparqlModel.Config

open SparqlModel.Graph (bind_eq_ok_iff pure_eq_ok_iff mapM_eq_ok_iff)

/-- The parts of a configuration that are kept. -/
inductive Part
  | prefixes
  | modelData
  | queries
deriving DecidableEq

namespace Part

@[reducible] def Data : Part → Type
  | prefixes => PrefixTable
  | modelData => List Value
  | queries => Table QuerySpec

def file : Part → String
  | prefixes => prefixFile
  | modelData => modelFile
  | queries => queryFile

/-- A part in the files as they are now. -/
def load (directory : String) (files : Files) (reader : Reader) : (p : Part) → Except Error p.Data
  | prefixes => loadPrefixes directory files reader
  | modelData => loadModelData directory files reader
  | queries => loadQueries directory files reader

end Part

variable {directory file : String} {files : Files}

/-! ## Paths to files -/

theorem exists_pathNames (hfile : '/' ∉ file.toList) (directory : String) :
    ∃ before, pathNames (joinPath directory file) = before ++ [file] ∧
      before.filter (fun name => !staysHere name) = directoryNames directory := by
  have hlast : Text.splitOn '/' file.toList = [file.toList] := Text.splitOn_of_notMem hfile
  have hslash : ∀ front : List Char, (Text.splitOn '/' (front ++ '/' :: file.toList)).map
      String.ofList = (Text.splitOn '/' front).map String.ofList ++ [file] := fun front => by
    simp [Text.splitOn_append, hlast]
  unfold joinPath pathNames directoryNames pathNames
  split_ifs with hroot hend
  · rw [String.startsWith_string_iff] at hroot
    obtain ⟨rest, hrest⟩ := hroot
    exact absurd (hrest ▸ List.mem_append_left rest (by simp)) hfile
  · rcases (Bool.or_eq_true _ _).mp hend with hempty | hend
    · rw [String.isEmpty_iff.mp hempty]
      exact ⟨[], by simp [hlast], by decide⟩
    · rw [String.endsWith_eq_endsWith_toSlice, String.Slice.endsWith_string_iff] at hend
      obtain ⟨front, hfront⟩ := hend
      have hdirectory : directory.toList = front ++ ['/'] := by simpa using hfront.symm
      refine ⟨(Text.splitOn '/' front).map String.ofList, ?_, ?_⟩
      · rw [String.toList_append, hdirectory]
        simpa using hslash front
      · rw [hdirectory, Text.splitOn_append, List.map_append, List.filter_append]
        simp [Text.splitOn, staysHere]
  · refine ⟨(Text.splitOn '/' directory.toList).map String.ofList, ?_, rfl⟩
    simpa using hslash directory.toList

theorem files?_treeOf (names : List String) : (treeOf directory files).files? names =
    if names = [] then some [] else if names = directoryNames directory then some files
      else none := by
  unfold Tree.files? treeOf
  rw [List.lookup_cons]
  by_cases hd : names = directoryNames directory
  · simp [hd]
  · simp [hd, beq_false_of_ne hd]

namespace Tree

theorem follow_outside (t : Tree) (hname : staysHere file = false) (hparent : file ≠ "..")
    (names : List String) : t.follow none (names ++ [file]) = .nowhere := by
  induction names with
  | nil => simp [follow, hname, hparent]
  | cons name names ih => simp [follow, parent, ih]

theorem follow_filter (t : Tree) (here : Option (List String)) (names : List String) :
    t.follow here (names.filter (fun name => !staysHere name) ++ [file]) =
      t.follow here (names ++ [file]) := by
  induction names generalizing here with
  | nil => rfl
  | cons name names ih =>
    cases hname : staysHere name with
    | true => simp [follow, hname, ih]
    | false =>
      rw [List.filter_cons_of_pos (by simp [hname])]
      cases here <;> simp [follow, hname, ih]

end Tree

/-- The path of a file that is not in its directory leads nowhere. -/
theorem follow_missing (hname : staysHere file = false) (hparent : file ≠ "..")
    (h : files.get? file = none) (path : String) :
    (treeOf directory files).follow (Tree.origin path) (directoryNames directory ++ [file]) =
      .nowhere := by
  have hempty : ∀ name, Table.get? name ([] : Files) = none := fun _ => rfl
  unfold Tree.origin
  split_ifs
  · exact Tree.follow_outside _ hname hparent _
  · have hstay : ∀ name ∈ directoryNames directory, staysHere name = false := fun name hn => by
      simpa using (List.mem_filter.mp hn).2
    rcases hd : directoryNames directory with _ | ⟨first, _ | ⟨second, rest⟩⟩
    · simp [Tree.follow, Tree.file?, files?_treeOf, hd, hname, hparent, hempty]
    · have hfirst := hstay first (by simp [hd])
      by_cases hup : first = ".."
      · have hout := Tree.follow_outside (treeOf directory files) hname hparent []
        simpa [Tree.follow, hup, Tree.parent, staysHere] using hout
      · simp [Tree.follow, Tree.file?, files?_treeOf, hd, hfirst, hup, hname, hparent, h]
    · have hfirst := hstay first (by simp [hd])
      by_cases hup : first = ".."
      · have hout := Tree.follow_outside (treeOf directory files) hname hparent (second :: rest)
        simpa [Tree.follow, hup, Tree.parent, staysHere] using hout
      · simp [Tree.follow, Tree.file?, files?_treeOf, hd, hfirst, hup, hempty]

/-- The data of a file that may be absent depends on nothing but its content. -/
theorem loadFile_eq (hfile : '/' ∉ file.toList) (hname : staysHere file = false)
    (hparent : file ≠ "..") (reader : Reader) :
    loadFile directory files file false reader =
      match files.get? file with
      | some bytes => located (joinPath directory file) (reader.ofBytes bytes)
      | none => .ok .null := by
  unfold loadFile locate
  cases h : files.get? file with
  | some bytes => rfl
  | none =>
    obtain ⟨before, hbefore, hdirectory⟩ := exists_pathNames hfile directory
    have hfollow : ∀ path, (treeOf directory files).follow (Tree.origin path)
        (directoryNames directory ++ [file]) = .nowhere := follow_missing hname hparent h
    simp only [← hdirectory, Tree.follow_filter, ← hbefore] at hfollow
    have hplace : (treeOf directory files).place (joinPath directory file) = .impossible ∨
        (treeOf directory files).place (joinPath directory file) = .missing := by
      simp only [Tree.place, hfollow]
      split_ifs
      · exact Or.inl rfl
      · exact Or.inr rfl
      · exact Or.inr rfl
    rcases hplace with hplace | hplace
    · rw [hplace]
      rfl
    · rw [hplace]
      rfl

theorem loadFile_congr {files' : Files} {reader : Reader} (hfile : '/' ∉ file.toList)
    (hname : staysHere file = false) (hparent : file ≠ "..")
    (h : files.get? file = files'.get? file) :
    loadFile directory files file false reader = loadFile directory files' file false reader := by
  rw [loadFile_eq hfile hname hparent, loadFile_eq hfile hname hparent, h]

/-! ## Content and data -/

/-- The entries of a mapping; what is absent has none. -/
def HasEntries (v : Value) (entries : List (Scalar × Value)) : Prop :=
  if v.isAbsent then entries = [] else v.unfold = .map entries

def StatesPrefixes (v : Value) (table : PrefixTable) : Prop :=
  v.unfold = .scalar .null ∧ table = [] ∨
    ∃ entries pairs, v.unfold = .map entries ∧ table = Table.ofPairs pairs ∧
      entries.Forall₂ (fun e pair => e.1.display? = some pair.1 ∧ e.2.display? = some pair.2) pairs

/-- Requested variables are the words of a text, or else the texts of the elements. -/
def StatesVariables (v : Value) (names : List String) : Prop :=
  if v.isAbsent then names = []
  else
    (∃ s, v.unfold = .scalar (.text s) ∧ names = Text.words s) ∨
      (∀ s, v.unfold ≠ .scalar (.text s)) ∧ ∃ items, v.unfold.elements? = some items ∧
        items.Forall₂ (fun item name => item.display? = some name) names

def StatesParameters (v : Value) (parameters : Pattern.Parameters) : Prop :=
  ∃ entries, HasEntries v entries ∧
    entries.Forall₂ (fun e p => Record.checkText (.scalar e.1) = .ok p.1 ∧ p.2 = e.2) parameters

def StatesQuery (key : Scalar) (v : Value) (q : QuerySpec) : Prop :=
  ∃ entries, HasEntries v entries ∧
    (Value.scalar key).display? = some q.name ∧
    Record.optionalText "description" entries = .ok q.description ∧
    StatesVariables ((Entries.field? "variables" entries).getD .null) q.variableNames ∧
    StatesParameters ((Entries.field? "parameters" entries).getD .null) q.parameters

def Reader.ofContent (reader : Reader) : Option ByteArray → Except Yaml.Error Value
  | none => .ok .null
  | some bytes => reader.ofBytes bytes

/-- What the content of its file says that a part is, where `none` means that there is no such
file. -/
def Part.States (reader : Reader) (content : Option ByteArray) : (p : Part) → p.Data → Prop
  | prefixes, table => ∃ v, reader.ofContent content = .ok v ∧ StatesPrefixes v table
  | modelData, data => ∃ bytes text v, content = some bytes ∧ Text.ofBytes? bytes = some text ∧
      reader.ofText (markBlankKeys text) = .ok v ∧ v.isEndless = false ∧
      if v.isAbsent then data = []
      else unmarkBlankKeys v = .list data ∨
        (∀ items, unmarkBlankKeys v ≠ .list items) ∧ data = [unmarkBlankKeys v]
  | queries, table => ∃ v entries pairs, reader.ofContent content = .ok v ∧ HasEntries v entries ∧
      table = Table.ofPairs pairs ∧
      entries.Forall₂ (fun e pair => pair.1 = pair.2.name ∧ StatesQuery e.1 e.2 pair.2) pairs

theorem located_eq_ok_iff {path : String} {data : Except Yaml.Error Value} {v : Value} :
    located path data = .ok v ↔ data = .ok v := by
  cases data <;> simp [located, Except.mapError]

theorem readPrefix_eq_ok_iff {e : Scalar × Value} {pair : String × String} :
    readPrefix e = .ok pair ↔ e.1.display? = some pair.1 ∧ e.2.display? = some pair.2 := by
  unfold readPrefix
  split
  · rename_i label iri hlabel hiri
    simp [hlabel, hiri, Prod.ext_iff]
  · rename_i hnone
    simp only [reduceCtorEq, false_iff]
    rintro ⟨hlabel, hiri⟩
    exact hnone _ _ hlabel hiri

theorem nameText_eq_ok_iff {v : Value} {name : String} :
    nameText v = .ok name ↔ v.display? = some name := by
  cases h : v.display? <;> simp [nameText, h]

theorem readVariables_eq_ok_iff {v : Value} {names : List String} :
    readVariables v = .ok names ↔ StatesVariables v names := by
  unfold readVariables StatesVariables
  split_ifs with habsent
  · simp [eq_comm]
  · split
    · rename_i s hs
      simp [hs, eq_comm]
    · rename_i hs
      have hwords : ¬∃ s, v.unfold = .scalar (.text s) ∧ names = Text.words s := fun ⟨s, h, _⟩ =>
        hs s h
      rw [or_iff_right hwords, and_iff_right (show ∀ s, v.unfold ≠ .scalar (.text s) from hs)]
      cases v.unfold.elements? with
      | none => simp
      | some items => simp [mapM_eq_ok_iff, nameText_eq_ok_iff]

open Record Check in
theorem both_eq_ok_iff {α β : Type} {x : Check α} {y : Check β} {a : α} {b : β} :
    both x y = .ok (a, b) ↔ x = .ok a ∧ y = .ok b := by
  unfold both
  split <;> simp

open Record Check in
theorem under_eq_ok_iff {α : Type} {locus : Locus} {x : Check α} {a : α} :
    under locus x = .ok a ↔ x = .ok a := by
  cases x <;> simp [under]

open Record Check in
theorem checkParameters_eq_ok_iff {v : Value} {parameters : Pattern.Parameters} :
    checkParameters v = .ok parameters ↔ StatesParameters v parameters := by
  have hentries : ∀ (entries : List (Scalar × Value)) (ps : Pattern.Parameters),
      entries.foldr (fun e rest => (both (checkName e.1) rest).map fun (name, ps) =>
        (name, e.2) :: ps) (.ok []) = .ok ps ↔
      entries.Forall₂ (fun e p => checkText (.scalar e.1) = .ok p.1 ∧ p.2 = e.2) ps := by
    intro entries
    induction entries with
    | nil => simp [eq_comm]
    | cons e rest ih =>
      intro ps
      rw [List.foldr_cons, Graph.map_eq_ok_iff, List.forall₂_cons_left_iff]
      constructor
      · rintro ⟨⟨name, others⟩, hboth, rfl⟩
        obtain ⟨hname, hothers⟩ := both_eq_ok_iff.mp hboth
        exact ⟨(name, e.2), others, ⟨by simpa [checkName, underField, under_eq_ok_iff] using hname,
          rfl⟩, (ih others).mp hothers, rfl⟩
      · rintro ⟨⟨name, value⟩, others, ⟨hname, rfl⟩, hothers, rfl⟩
        refine ⟨(name, others), both_eq_ok_iff.mpr ⟨?_, (ih others).mpr hothers⟩, rfl⟩
        simpa [checkName, underField, under_eq_ok_iff] using hname
  unfold checkParameters StatesParameters HasEntries
  rw [underField, under_eq_ok_iff]
  split_ifs with habsent
  · simp [eq_comm]
  · split
    · rename_i entries hv
      simp [hv, hentries]
    · rename_i hv
      simp only [fail, reduceCtorEq, false_iff]
      rintro ⟨entries, hentries, -⟩
      exact hv entries hentries

theorem eq_map_iff_hasEntries {v : Value} {entries : List (Scalar × Value)} :
    (if v.isAbsent then Value.map [] else v.unfold) = .map entries ↔ HasEntries v entries := by
  unfold HasEntries
  split_ifs
  · simp [eq_comm]
  · rfl

theorem readQuery_eq_ok_iff {key : Scalar} {v : Value} {q : QuerySpec} :
    readQuery key v = .ok q ↔ StatesQuery key v q := by
  unfold readQuery
  split
  · rename_i entries hv
    constructor
    · intro h
      simp only [bind_eq_ok_iff, nameText_eq_ok_iff, readVariables_eq_ok_iff] at h
      obtain ⟨name, hname, names, hnames, h⟩ := h
      split at h
      · rename_i description parameters hboth
        obtain ⟨hdescription, hparameters⟩ := both_eq_ok_iff.mp hboth
        obtain rfl := pure_eq_ok_iff.mp h
        exact ⟨entries, eq_map_iff_hasEntries.mp hv, hname, hdescription, hnames,
          checkParameters_eq_ok_iff.mp hparameters⟩
      · cases h
    · rintro ⟨entries', hentries, hname, hdescription, hnames, hparameters⟩
      obtain rfl : entries = entries' :=
        Value.map.inj (hv.symm.trans (eq_map_iff_hasEntries.mpr hentries))
      rw [nameText_eq_ok_iff.mpr hname, Graph.ok_bind, readVariables_eq_ok_iff.mpr hnames,
        Graph.ok_bind, both_eq_ok_iff.mpr ⟨hdescription, checkParameters_eq_ok_iff.mpr hparameters⟩]
      rfl
  · rename_i hv
    simp only [reduceCtorEq, false_iff]
    rintro ⟨entries, hentries, -⟩
    exact hv entries (eq_map_iff_hasEntries.mpr hentries)

theorem readQueries_eq_ok_iff {entries : List (Scalar × Value)}
    {pairs : List (String × QuerySpec)} :
    readQueries entries = .ok pairs ↔
      entries.Forall₂ (fun e pair => pair.1 = pair.2.name ∧ StatesQuery e.1 e.2 pair.2) pairs := by
  induction entries generalizing pairs with
  | nil => simp [readQueries, eq_comm]
  | cons e rest ih =>
    rw [readQueries, List.forall₂_cons_left_iff]
    simp only [bind_eq_ok_iff, pure_eq_ok_iff, readQuery_eq_ok_iff, ih]
    constructor
    · rintro ⟨q, hq, others, hothers, rfl⟩
      exact ⟨(q.name, q), others, ⟨rfl, hq⟩, hothers, rfl⟩
    · rintro ⟨⟨name, q⟩, others, ⟨hname, hq⟩, hothers, rfl⟩
      exact ⟨q, hq, others, hothers, by rw [show name = q.name from hname]⟩

theorem loadFile_eq_ok_iff {v : Value} {reader : Reader} (hfile : '/' ∉ file.toList)
    (hname : staysHere file = false) (hparent : file ≠ "..") :
    loadFile directory files file false reader = .ok v ↔
      reader.ofContent (files.get? file) = .ok v := by
  rw [loadFile_eq hfile hname hparent]
  cases files.get? file with
  | none => simp [Reader.ofContent]
  | some bytes => exact located_eq_ok_iff

theorem asItems_eq_iff {v : Value} {data : List Value} :
    Graph.asItems v = data ↔ v = .list data ∨ (∀ items, v ≠ .list items) ∧ data = [v] := by
  unfold Graph.asItems
  split
  · simp
  · rename_i hv
    rw [or_iff_right (fun h => hv _ h), and_iff_right (show ∀ items, v ≠ .list items from hv), eq_comm]

namespace Part

variable {reader : Reader}

theorem loadPrefixes_eq_ok_iff {table : PrefixTable} :
    loadPrefixes directory files reader = .ok table ↔
      prefixes.States reader (files.get? prefixFile) table := by
  have hdata : ∀ v, loadFile directory files prefixFile false reader = .ok v ↔
      reader.ofContent (files.get? prefixFile) = .ok v := fun v =>
    loadFile_eq_ok_iff (by decide) (by decide) (by decide)
  simp only [loadPrefixes, bind_eq_ok_iff, hdata, States]
  refine exists_congr fun v => and_congr_right fun _ => ?_
  unfold StatesPrefixes
  split
  · rename_i hv
    rw [pure_eq_ok_iff]
    simp [hv, eq_comm]
  · rename_i entries hv
    simp only [bind_eq_ok_iff, pure_eq_ok_iff, mapM_eq_ok_iff, readPrefix_eq_ok_iff]
    constructor
    · rintro ⟨pairs, hpairs, rfl⟩
      exact Or.inr ⟨entries, pairs, hv, rfl, hpairs⟩
    · rintro (⟨hnull, -⟩ | ⟨entries', pairs, hmap, rfl, hpairs⟩)
      · cases hv.symm.trans hnull
      · obtain rfl : entries = entries' := Value.map.inj (hv.symm.trans hmap)
        exact ⟨pairs, hpairs, rfl⟩
  · rename_i hnull hmap
    simp only [reduceCtorEq, false_iff]
    rintro (⟨hv, -⟩ | ⟨entries, -, hv, -⟩)
    · exact hnull hv
    · exact hmap entries hv

theorem loadQueries_eq_ok_iff {table : Table QuerySpec} :
    loadQueries directory files reader = .ok table ↔
      queries.States reader (files.get? queryFile) table := by
  have hdata : ∀ v, loadFile directory files queryFile false reader = .ok v ↔
      reader.ofContent (files.get? queryFile) = .ok v := fun v =>
    loadFile_eq_ok_iff (by decide) (by decide) (by decide)
  simp only [loadQueries, bind_eq_ok_iff, hdata, States]
  refine exists_congr fun v => ?_
  split
  · rename_i entries hv
    simp only [bind_eq_ok_iff, pure_eq_ok_iff, readQueries_eq_ok_iff]
    constructor
    · rintro ⟨hcontent, pairs, hpairs, rfl⟩
      exact ⟨entries, pairs, hcontent, eq_map_iff_hasEntries.mp hv, rfl, hpairs⟩
    · rintro ⟨entries', pairs, hcontent, hentries, rfl, hpairs⟩
      obtain rfl : entries = entries' :=
        Value.map.inj (hv.symm.trans (eq_map_iff_hasEntries.mpr hentries))
      exact ⟨hcontent, pairs, hpairs, rfl⟩
  · rename_i hv
    simp only [reduceCtorEq, and_false, false_iff]
    rintro ⟨entries, -, -, hentries, -⟩
    exact hv entries (eq_map_iff_hasEntries.mpr hentries)

theorem loadModelData_eq_ok_iff {data : List Value} :
    loadModelData directory files reader = .ok data ↔
      modelData.States reader (files.get? modelFile) data := by
  have hitems : ∀ v : Value,
      Graph.asItems (unmarkBlankKeys (if v.isAbsent then .list [] else v)) = data ↔
        if v.isAbsent then data = [] else unmarkBlankKeys v = .list data ∨
          (∀ items, unmarkBlankKeys v ≠ .list items) ∧ data = [unmarkBlankKeys v] := by
    intro v
    split_ifs
    · simp [unmarkBlankKeys, unmarkItems, Graph.asItems, eq_comm]
    · exact asItems_eq_iff
  unfold loadModelData States
  cases files.get? modelFile with
  | none => simp
  | some bytes =>
    dsimp only
    cases htext : Text.ofBytes? bytes with
    | none => simp [htext]
    | some text =>
      dsimp only
      rw [bind_eq_ok_iff]
      constructor
      · rintro ⟨v, hv, h⟩
        cases hendless : v.isEndless with
        | true =>
          rw [if_pos hendless] at h
          cases h
        | false =>
          rw [if_neg (by simp [hendless]), pure_eq_ok_iff] at h
          exact ⟨bytes, text, v, rfl, htext, located_eq_ok_iff.mp hv, hendless, (hitems v).mp h⟩
      · rintro ⟨bytes', text', v, hbytes, htext', hv, hendless, hdata⟩
        obtain rfl := Option.some.inj hbytes
        obtain rfl := Option.some.inj (htext.symm.trans htext')
        refine ⟨v, located_eq_ok_iff.mpr hv, ?_⟩
        rw [if_neg (by simp [hendless]), pure_eq_ok_iff]
        exact (hitems v).mpr hdata

/-- A part is loaded as the content of its file states it, whatever else there is. -/
theorem load_eq_ok_iff (p : Part) (data : p.Data) :
    p.load directory files reader = .ok data ↔ p.States reader (files.get? p.file) data := by
  cases p with
  | prefixes => exact loadPrefixes_eq_ok_iff
  | modelData => exact loadModelData_eq_ok_iff
  | queries => exact loadQueries_eq_ok_iff

theorem load_congr {files' : Files} {p : Part} (h : files.get? p.file = files'.get? p.file) :
    p.load directory files reader = p.load directory files' reader := by
  cases p with
  | prefixes =>
    have hdata : loadFile directory files prefixFile false reader =
        loadFile directory files' prefixFile false reader :=
      loadFile_congr (by decide) (by decide) (by decide) h
    rw [load, load, loadPrefixes, loadPrefixes, hdata]
  | modelData =>
    have hcontent : files.get? modelFile = files'.get? modelFile := h
    rw [load, load, loadModelData, loadModelData, hcontent]
  | queries =>
    have hdata : loadFile directory files queryFile false reader =
        loadFile directory files' queryFile false reader :=
      loadFile_congr (by decide) (by decide) (by decide) h
    rw [load, load, loadQueries, loadQueries, hdata]

end Part

/-! ## Files that are written -/

theorem isSome_files?_treeOf (files files' : Files) (names : List String) :
    ((treeOf directory files).files? names).isSome =
      ((treeOf directory files').files? names).isSome := by
  rw [files?_treeOf, files?_treeOf]
  split_ifs <;> rfl

/-- Whether names lead to a directory does not depend on its files. -/
theorem follow_eq_directory_iff {files' : Files} {there : Option (List String)}
    (here : Option (List String)) (names : List String) :
    (treeOf directory files).follow here names = .directory there ↔
      (treeOf directory files').follow here names = .directory there := by
  induction names generalizing here with
  | nil => rfl
  | cons name names ih =>
    have hfile : ∀ t : Tree, ∀ ns, (match t.file? ns name with
        | some bytes => if names.isEmpty then Reached.file bytes else .nowhere
        | none => .nowhere) ≠ .directory there := by
      intro t ns
      split
      · split_ifs <;> simp
      · simp
    rw [Tree.follow.eq_def, Tree.follow.eq_def (treeOf directory files')]
    dsimp only
    by_cases hstay : staysHere name = true
    · rw [if_pos hstay, if_pos hstay]
      exact ih here
    rw [if_neg hstay, if_neg hstay]
    by_cases hup : (name == "..") = true
    · rw [if_pos hup, if_pos hup]
      exact ih _
    rw [if_neg hup, if_neg hup]
    cases here with
    | none => rfl
    | some ns =>
      dsimp only
      rw [isSome_files?_treeOf files files']
      by_cases hdown : ((treeOf directory files').files? (ns ++ [name])).isSome = true
      · rw [if_pos hdown, if_pos hdown]
        exact ih _
      · rw [if_neg hdown, if_neg hdown]
        exact iff_of_false (hfile _ ns) (hfile _ ns)

def isWritable (directory file : String) : Bool :=
  (writtenName directory [] file).toOption == some (some file)

theorem writtenName_eq_ok (hfile : '/' ∉ file.toList) {made : Option String}
    (h : writtenName directory files file = .ok made) (files' : Files) :
    writtenName directory files' file = .ok made ∧ ∀ name ∈ made, name = file := by
  obtain ⟨before, hbefore, -⟩ := exists_pathNames hfile directory
  unfold writtenName at h ⊢
  simp only [hbefore, List.getLast?_concat, List.dropLast_concat, Option.getD_some] at h ⊢
  split_ifs at h ⊢ with hpath hlong hname hempty
  · split at h <;> cases h
  · split at h <;> cases h
  · split at h
    · rename_i here hfollow
      rw [(follow_eq_directory_iff _ _).mp hfollow]
      obtain rfl := Except.ok.inj h
      refine ⟨rfl, fun name hn => ?_⟩
      split_ifs at hn
      · exact (Option.some.inj hn).symm
      · cases hn
    · cases h
    · cases h

theorem isWritable_eq (hfile : '/' ∉ file.toList) (directory : String) (files : Files) :
    isWritable directory file = ((writtenName directory files file).toOption == some (some file)) := by
  unfold isWritable
  cases h : writtenName directory files file with
  | ok made => rw [(writtenName_eq_ok hfile h []).1]
  | error e =>
    cases h' : writtenName directory [] file with
    | error e' => rfl
    | ok made =>
      rw [(writtenName_eq_ok hfile h' files).1] at h
      cases h

/-- Writing changes the content of one file only, if that file is there or can be made. -/
theorem get?_writeFile (hfile : '/' ∉ file.toList) (content : Option ByteArray) (name : String) :
    ((writeFile directory files file content).toOption.getD files).get? name =
      if name = file ∧ (isWritable directory file || (files.get? file).isSome) then content
      else files.get? name := by
  unfold writeFile
  cases files.get? file with
  | some bytes =>
    cases content with
    | some bytes' => simpa [Except.toOption] using files.get?_insert file name bytes'
    | none => simpa [Except.toOption] using files.get?_filter_ne file name
  | none =>
    rw [isWritable_eq hfile directory files]
    cases hmade : writtenName directory files file with
    | error e => simp [bind, Except.bind, Except.toOption]
    | ok made =>
      cases made with
      | none => simp [bind, Except.bind, pure, Except.pure, Except.toOption]
      | some made =>
        obtain rfl := (writtenName_eq_ok hfile hmade files).2 made rfl
        cases content with
        | some bytes =>
          simpa [bind, Except.bind, pure, Except.pure, Except.toOption] using
            files.get?_insert made name bytes
        | none =>
          simpa [bind, Except.bind, pure, Except.pure, Except.toOption] using
            files.get?_filter_ne made name

end SparqlModel.Config
