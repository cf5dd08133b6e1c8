import SparqlModel.Proofs.FileContents

/-!
# What a session keeps

The step statement is `perform_eq`: an action replies from the parts that it reads, and stores those
of them that could be read. Over a run, a part is kept as it was stated when it was read for the
first time with success. Actions on other parts have no influence on a part, with one exception:
building a model asks for the prefixes only if its model data makes subjects.
-/

namespace SparqlModel.Config

namespace Session

def kept (s : Session) : (p : Part) → Option p.Data
  | .prefixes => s.prefixes
  | .modelData => s.modelData
  | .queries => s.queries

def store (s : Session) : (p : Part) → Option p.Data → Session
  | .prefixes, table => { s with prefixes := table }
  | .modelData, data => { s with modelData := data }
  | .queries, table => { s with queries := table }

/-- What a reading of a part gives: what is kept, or else what the files hold now. -/
def value (s : Session) (files : Files) (p : Part) : Except Error p.Data :=
  match s.kept p with
  | some data => .ok data
  | none => p.load s.directory files s.reader

/-- The session after a reading of a part. -/
def reading (s : Session) (files : Files) (p : Part) : Session :=
  s.store p (s.value files p).toOption

section

variable {s : Session} {files : Files} {p q : Part}

theorem value_of_some {data : p.Data} (h : s.kept p = some data) : s.value files p = .ok data := by
  rw [value, h]

theorem value_of_none (h : s.kept p = none) :
    s.value files p = p.load s.directory files s.reader := by
  rw [value, h]

@[simp] theorem directory_store (data : Option p.Data) :
    (s.store p data).directory = s.directory := by
  cases p <;> rfl

@[simp] theorem reader_store (data : Option p.Data) : (s.store p data).reader = s.reader := by
  cases p <;> rfl

@[simp] theorem kept_store_self (data : Option p.Data) : (s.store p data).kept p = data := by
  cases p <;> rfl

theorem kept_store_of_ne (h : q ≠ p) (data : Option p.Data) :
    (s.store p data).kept q = s.kept q := by
  cases p <;> cases q <;> trivial

theorem store_kept : s.store p (s.kept p) = s := by
  cases p <;> rfl

@[simp] theorem directory_reading : (s.reading files p).directory = s.directory :=
  directory_store _

@[simp] theorem reader_reading : (s.reading files p).reader = s.reader :=
  reader_store _

theorem reading_eq_self (h : (s.value files p).toOption = s.kept p) : s.reading files p = s := by
  rw [reading, h, store_kept]

theorem kept_reading : (s.reading files p).kept q =
    if q = p then (s.value files q).toOption else s.kept q := by
  split_ifs with h
  · subst h
    exact kept_store_self _
  · exact kept_store_of_ne h _

@[simp] theorem value_reading : (s.reading files p).value files q = s.value files q := by
  rw [value, kept_reading, directory_reading, reader_reading]
  split_ifs with h
  · cases hk : s.kept q with
    | some data => simp [value_of_some hk, Except.toOption]
    | none =>
      rw [value_of_none hk]
      cases q.load s.directory files s.reader <;> rfl
  · rfl

theorem kept_foldl_reading (ps : List Part) :
    (ps.foldl (fun s p => s.reading files p) s).kept q =
      if q ∈ ps then (s.value files q).toOption else s.kept q := by
  induction ps generalizing s with
  | nil => simp
  | cons p ps ih =>
    rw [List.foldl_cons, ih, value_reading, kept_reading]
    by_cases hq : q = p <;> simp [hq]

theorem source_foldl_reading (ps : List Part) :
    (ps.foldl (fun s p => s.reading files p) s).directory = s.directory ∧
      (ps.foldl (fun s p => s.reading files p) s).reader = s.reader := by
  induction ps generalizing s with
  | nil => exact ⟨rfl, rfl⟩
  | cons p ps ih =>
    exact ⟨ih.1.trans directory_reading, ih.2.trans reader_reading⟩

end

def read (s : Session) (files : Files) (p : Part) : Except Error p.Data × Session :=
  match s.kept p with
  | some data => (.ok data, s)
  | none =>
    match p.load s.directory files s.reader with
    | .ok data => (.ok data, s.store p (some data))
    | .error e => (.error e, s)

variable (s : Session) (files : Files)

theorem read_eq (p : Part) : s.read files p = (s.value files p, s.reading files p) := by
  unfold read
  cases hk : s.kept p with
  | some data =>
    have hvalue : s.value files p = .ok data := value_of_some hk
    rw [hvalue, reading_eq_self (by rw [hvalue, hk]; rfl)]
  | none =>
    have hvalue : s.value files p = p.load s.directory files s.reader := value_of_none hk
    cases hl : p.load s.directory files s.reader with
    | ok data => simp [reading, hvalue, hl, Except.toOption]
    | error e => rw [hvalue, hl, reading_eq_self (by rw [hvalue, hl, hk]; rfl)]

theorem readPrefixes_eq :
    s.readPrefixes files = (s.value files .prefixes, s.reading files .prefixes) := by
  rw [← read_eq, readPrefixes, read]
  simp only [kept, Part.load, store]
  cases s.prefixes <;> cases loadPrefixes s.directory files s.reader <;> rfl

theorem readQueries_eq :
    s.readQueries files = (s.value files .queries, s.reading files .queries) := by
  rw [← read_eq, readQueries, read]
  simp only [kept, Part.load, store]
  cases s.queries <;> cases loadQueries s.directory files s.reader <;> rfl

theorem readModelData_eq :
    s.readModelData files = (s.value files .modelData, s.reading files .modelData) := by
  rw [← read_eq, readModelData, read]
  simp only [kept, Part.load, store]
  cases s.modelData <;> cases loadModelData s.directory files s.reader <;> rfl

theorem query_eq (name : Option String) : s.query files name =
    (s.value files .queries >>= (findQuery · name), s.reading files .queries) := by
  rw [query, readQueries_eq]
  cases s.value files .queries <;> rfl

end Session

/-- A part is what the first of some contents states that state it at all. -/
def Part.FirstStated (p : Part) (reader : Reader) (contents : List (Option ByteArray))
    (data : p.Data) : Prop :=
  ∃ before content after, contents = before ++ content :: after ∧
    (∀ c ∈ before, ∀ d, ¬p.States reader c d) ∧ p.States reader content data

theorem Part.firstStated_cons_iff {p : Part} {reader : Reader} {content : Option ByteArray}
    {contents : List (Option ByteArray)} {data : p.Data} :
    p.FirstStated reader (content :: contents) data ↔ p.States reader content data ∨
      (∀ d, ¬p.States reader content d) ∧ p.FirstStated reader contents data := by
  constructor
  · rintro ⟨before, first, after, hcontents, hbefore, hfirst⟩
    rcases List.cons_eq_append_iff.mp hcontents with ⟨-, heq⟩ | ⟨before, rfl, rfl⟩
    · obtain ⟨rfl, -⟩ := List.cons.inj heq
      exact Or.inl hfirst
    · obtain ⟨hcontent, hbefore⟩ := List.forall_mem_cons.mp hbefore
      exact Or.inr ⟨hcontent, before, first, after, rfl, hbefore, hfirst⟩
  · rintro (h | ⟨hcontent, before, first, after, rfl, hbefore, hfirst⟩)
    · exact ⟨[], content, contents, rfl, by simp, h⟩
    · exact ⟨content :: before, first, after, rfl, List.forall_mem_cons.mpr ⟨hcontent, hbefore⟩,
        hfirst⟩

/-- The parts on which it depends what an action does. -/
def Action.parts : Action → List Part
  | .write file _ => [.prefixes, .modelData, .queries].filter (·.file = file)
  | .prefixes | .loadPrefixes => [.prefixes]
  | .queries | .loadQueries | .query _ => [.queries]
  | .modelData | .subjects => [.modelData]
  | .model => [.modelData, .prefixes]

/-- The actions that have to do with some of the given parts. -/
def Action.about (ps : List Part) (actions : List Action) : List Action :=
  actions.filter fun a => a.parts.any (· ∈ ps)

namespace Workspace

variable (w : Workspace)

def content (p : Part) : Option ByteArray :=
  w.files.get? p.file

/-- What a reading of a part gives now. -/
def value (p : Part) : Except Error p.Data :=
  w.session.value w.files p

def subjects : Except Error (List Subject) :=
  w.value .modelData >>= fun data => (Graph.build data).mapError .build

theorem buildSubjects_eq : w.session.buildSubjects w.files =
    (w.subjects, w.session.reading w.files .modelData) := by
  rw [Session.buildSubjects, Session.readModelData_eq, subjects, value]
  cases w.session.value w.files .modelData <;> rfl

/-- The parts that an action reads. A model is not asked for the prefixes if it has no subjects. -/
def reads : Action → List Part
  | .prefixes => [.prefixes]
  | .queries | .query _ => [.queries]
  | .modelData | .subjects => [.modelData]
  | .model =>
    match w.subjects with
    | .ok _ => [.modelData, .prefixes]
    | .error _ => [.modelData]
  | .write .. | .loadPrefixes | .loadQueries => []

def reply : Action → Except Error Reply
  | .write file content =>
    (writeFile w.session.directory w.files file content).map fun _ => .done
  | .prefixes => (w.value .prefixes).map .prefixes
  | .loadPrefixes =>
    (Part.prefixes.load w.session.directory w.files w.session.reader).map .prefixes
  | .queries => (w.value .queries).map .queries
  | .loadQueries => (Part.queries.load w.session.directory w.files w.session.reader).map .queries
  | .query name => (w.value .queries >>= (Session.findQuery · name)).map .query
  | .modelData => (w.value .modelData).map .modelData
  | .subjects => w.subjects.map .subjects
  | .model => do
    let subjects ← w.subjects
    let table ← w.value .prefixes
    ((Model.build subjects table).mapError .rejected).map .model

/-- The files after an action. Only a write that succeeds changes them. -/
def filesAfter : Action → Files
  | .write file content =>
    ((writeFile w.session.directory w.files file content).toOption).getD w.files
  | _ => w.files

def after (a : Action) : Workspace :=
  ⟨w.filesAfter a, (w.reads a).foldl (fun s p => s.reading w.files p) w.session⟩

/-- An action replies from the parts that it reads, and stores those that could be read. -/
theorem perform_eq (a : Action) : w.perform a = (w.reply a, w.after a) := by
  cases a with
  | write file content =>
    simp only [perform, reply, after, filesAfter, reads, List.foldl_nil]
    cases writeFile w.session.directory w.files file content <;> rfl
  | prefixes =>
    simp only [perform, answer, Session.readPrefixes_eq]
    rfl
  | loadPrefixes => rfl
  | queries =>
    simp only [perform, answer, Session.readQueries_eq]
    rfl
  | loadQueries => rfl
  | query name =>
    simp only [perform, answer, Session.query_eq]
    rfl
  | modelData =>
    simp only [perform, answer, Session.readModelData_eq]
    rfl
  | subjects =>
    simp only [perform, answer, buildSubjects_eq]
    rfl
  | model =>
    simp only [perform, answer, Session.model, buildSubjects_eq, Session.readPrefixes_eq, reply,
      after, reads]
    cases w.subjects with
    | error e => rfl
    | ok subjects =>
      dsimp only
      rw [Session.value_reading, value]
      cases w.session.value w.files .prefixes <;> rfl

theorem kept_perform (a : Action) (p : Part) : (w.perform a).2.session.kept p =
    if p ∈ w.reads a then (w.value p).toOption else w.session.kept p := by
  rw [perform_eq]
  exact Session.kept_foldl_reading _

theorem source_perform (a : Action) :
    (w.perform a).2.session.directory = w.session.directory ∧
      (w.perform a).2.session.reader = w.session.reader := by
  rw [perform_eq]
  exact Session.source_foldl_reading _

section

variable {w} {p : Part}

theorem value_of_kept {data : p.Data} (h : w.session.kept p = some data) :
    w.value p = .ok data :=
  Session.value_of_some h

theorem value_eq_ok_iff {data : p.Data} : w.value p = .ok data ↔ w.session.kept p = some data ∨
    w.session.kept p = none ∧ p.States w.session.reader (w.content p) data := by
  cases hk : w.session.kept p with
  | some kept => simp [value_of_kept hk]
  | none => simp [value, Session.value_of_none hk, Part.load_eq_ok_iff, content]

theorem not_kept_of_error {e : Error} (h : w.value p = .error e) : w.session.kept p = none := by
  cases hk : w.session.kept p with
  | none => rfl
  | some data =>
    rw [value_of_kept hk] at h
    cases h

end

def run (actions : List Action) : Workspace :=
  actions.foldl (fun w a => (w.perform a).2) w

theorem run_nil : w.run [] = w :=
  rfl

/-- The contents of the file of a part at the readings of the part in a run. -/
def readings (p : Part) : Workspace → List Action → List (Option ByteArray)
  | _, [] => []
  | w, a :: rest => (if p ∈ w.reads a then [w.content p] else []) ++ readings p (w.perform a).2 rest

theorem source_run (actions : List Action) :
    (w.run actions).session.directory = w.session.directory ∧
      (w.run actions).session.reader = w.session.reader := by
  induction actions generalizing w with
  | nil => exact ⟨rfl, rfl⟩
  | cons a rest ih =>
    obtain ⟨hdirectory, hreader⟩ := ih (w.perform a).2
    obtain ⟨hdirectory', hreader'⟩ := w.source_perform a
    exact ⟨hdirectory.trans hdirectory', hreader.trans hreader'⟩

/-- A run keeps what is kept, or else what the first reading with success gives. -/
theorem kept_run_eq_some_iff (actions : List Action) {p : Part} {data : p.Data} :
    (w.run actions).session.kept p = some data ↔ w.session.kept p = some data ∨
      w.session.kept p = none ∧ p.FirstStated w.session.reader (readings p w actions) data := by
  induction actions generalizing w with
  | nil => simp [run, readings, Part.FirstStated]
  | cons a rest ih =>
    refine (ih (w.perform a).2).trans ?_
    rw [kept_perform, (w.source_perform a).2, readings]
    split_ifs
    · rw [List.singleton_append, Part.firstStated_cons_iff]
      cases hk : w.session.kept p with
      | some kept => simp [value_of_kept hk, Except.toOption]
      | none =>
        have hstates : ∀ d, w.value p = .ok d ↔ p.States w.session.reader (w.content p) d := by
          intro d
          rw [value_eq_ok_iff, hk]
          simp
        simp only [← hstates]
        cases w.value p <;> simp [Except.toOption]
    · rw [List.nil_append]

/-- Two workspaces that cannot be told apart by what they keep and hold of some parts. -/
structure Agree (ps : List Part) (w w' : Workspace) : Prop where
  directory : w.session.directory = w'.session.directory
  reader : w.session.reader = w'.session.reader
  kept : ∀ p ∈ ps, w.session.kept p = w'.session.kept p
  content : ∀ p ∈ ps, w.content p = w'.content p

theorem content_perform {a : Action} (ha : ∀ file c, a = .write file c → '/' ∉ file.toList)
    (p : Part) : (w.perform a).2.content p =
      match a with
      | .write file c =>
        if p.file = file ∧ (isWritable w.session.directory file || (w.content p).isSome) then c
        else w.content p
      | _ => w.content p := by
  rw [perform_eq]
  cases a with
  | write file c =>
    refine (get?_writeFile (ha file c rfl) c p.file).trans ?_
    by_cases hp : p.file = file <;> simp [hp, content]
  | _ => rfl

theorem mem_parts_of_mem_reads {a : Action} {p : Part} (h : p ∈ w.reads a) : p ∈ a.parts := by
  cases a with
  | model =>
    rw [reads] at h
    cases hs : w.subjects with
    | ok subjects =>
      rw [hs] at h
      exact h
    | error e =>
      rw [hs] at h
      exact List.mem_cons.mpr (Or.inl (List.mem_singleton.mp h))
  | write file c => cases h
  | loadPrefixes => cases h
  | loadQueries => cases h
  | _ => exact h

section

variable {w} {ps : List Part} {w' : Workspace} {a : Action}

theorem Agree.value (h : Agree ps w w') {p : Part} (hp : p ∈ ps) : w.value p = w'.value p := by
  have hcontent : w.files.get? p.file = w'.files.get? p.file := h.content p hp
  rw [Workspace.value, Workspace.value, Session.value, Session.value, h.kept p hp, h.directory,
    h.reader, Part.load_congr hcontent]

theorem Agree.mem_reads_iff (hps : .prefixes ∈ ps → .modelData ∈ ps) (h : Agree ps w w') {p : Part}
    (hp : p ∈ ps) : p ∈ w.reads a ↔ p ∈ w'.reads a := by
  cases a with
  | model =>
    have hmodel : p ∈ ps → .modelData ∈ ps ∨ p = .queries := by
      cases p with
      | prefixes => exact fun hp => Or.inl (hps hp)
      | modelData => exact Or.inl
      | queries => exact fun _ => Or.inr rfl
    rcases hmodel hp with hdata | rfl
    · rw [reads, reads, subjects, subjects, h.value hdata]
    · have hother : .queries ∉ Action.model.parts := by decide
      exact iff_of_false (mt w.mem_parts_of_mem_reads hother) (mt w'.mem_parts_of_mem_reads hother)
  | _ => rfl

theorem Agree.perform (hps : .prefixes ∈ ps → .modelData ∈ ps)
    (ha : ∀ file c, a = .write file c → '/' ∉ file.toList) (h : Agree ps w w') :
    Agree ps (w.perform a).2 (w'.perform a).2 where
  directory := by rw [(w.source_perform a).1, (w'.source_perform a).1, h.directory]
  reader := by rw [(w.source_perform a).2, (w'.source_perform a).2, h.reader]
  kept p hp := by
    rw [kept_perform, kept_perform, h.value hp, h.kept p hp]
    simp only [h.mem_reads_iff hps hp]
  content p hp := by
    rw [content_perform _ ha, content_perform _ ha, h.content p hp, h.directory]

/-- An action on other parts cannot be noticed. -/
theorem Agree.perform_left (ha : ∀ file c, a = .write file c → '/' ∉ file.toList)
    (hother : ∀ p ∈ ps, p ∉ a.parts) (h : Agree ps w w') : Agree ps (w.perform a).2 w' where
  directory := by rw [(w.source_perform a).1, h.directory]
  reader := by rw [(w.source_perform a).2, h.reader]
  kept p hp := by
    rw [kept_perform, if_neg (mt w.mem_parts_of_mem_reads (hother p hp)), h.kept p hp]
  content p hp := by
    rw [content_perform _ ha, ← h.content p hp]
    cases a with
    | write file c =>
      have hfile : p.file ≠ file := by
        have hp := hother p hp
        cases p <;> simpa [Action.parts] using hp
      simp [hfile]
    | _ => rfl

/-- Parts are left as they are by all actions that have to do with other parts only. -/
theorem Agree.run (hps : .prefixes ∈ ps → .modelData ∈ ps) {actions : List Action}
    (hactions : ∀ file c, .write file c ∈ actions → '/' ∉ file.toList) (h : Agree ps w w') :
    Agree ps (w.run actions) (w'.run (Action.about ps actions)) := by
  induction actions generalizing w w' with
  | nil => exact h
  | cons a rest ih =>
    have ha : ∀ file c, a = .write file c → '/' ∉ file.toList := fun file c ha =>
      hactions file c (ha ▸ List.mem_cons_self)
    have hrest : ∀ file c, .write file c ∈ rest → '/' ∉ file.toList := fun file c hmem =>
      hactions file c (List.mem_cons_of_mem a hmem)
    by_cases hparts : a.parts.any (· ∈ ps) = true
    · rw [Action.about, List.filter_cons, if_pos hparts]
      exact ih hrest (h.perform hps ha)
    · rw [Action.about, List.filter_cons, if_neg hparts]
      refine ih hrest (h.perform_left ha fun p hp hmem => hparts ?_)
      exact List.any_eq_true.mpr ⟨p, hmem, by simpa using hp⟩

end

/-- The parts of a configuration that are kept over time. A part is kept as the first content of its
file stated it that a reading found and that states it at all; a reading gives what is kept, and
what the content of the file states while nothing is. What is kept is given by all later readings. A
reading that fails keeps nothing, so that the next one takes the file as it is then. An action
replies from the parts that it reads and stores them, and loading stores nothing. Actions on other
parts do not matter to the model data, nor to the queries, nor to the prefixes and the model data
together. -/
theorem run_keeps (reader : Reader) (directory : String) (files : Files) (actions : List Action) :
    let w := (start directory files reader).run actions
    (∀ p data, w.session.kept p = some data ↔
      p.FirstStated reader (readings p (start directory files reader) actions) data) ∧
    (∀ p data, w.value p = .ok data ↔ w.session.kept p = some data ∨
      w.session.kept p = none ∧ p.States reader (w.content p) data) ∧
    (∀ p data, w.session.kept p = some data → ∀ later, (w.run later).value p = .ok data) ∧
    (∀ p e, w.value p = .error e → ∀ a, (w.perform a).2.session.kept p = none ∧
      ∀ data, (w.perform a).2.value p = .ok data ↔
        p.States reader ((w.perform a).2.content p) data) ∧
    (∀ a, (w.perform a).1 = w.reply a ∧ (w.perform a).2.files = w.filesAfter a ∧
      ∀ p, (w.perform a).2.session.kept p =
        if p ∈ w.reads a then (w.value p).toOption else w.session.kept p) ∧
    ((w.perform .loadPrefixes).2 = w ∧ (w.perform .loadQueries).2 = w ∧
      (∀ table, (w.perform .loadPrefixes).1 = .ok (.prefixes table) ↔
        Part.prefixes.States reader (w.content .prefixes) table) ∧
      ∀ table, (w.perform .loadQueries).1 = .ok (.queries table) ↔
        Part.queries.States reader (w.content .queries) table) ∧
    ∀ ps : List Part, (.prefixes ∈ ps → .modelData ∈ ps) → ∀ w', Agree ps w w' → ∀ later,
      (∀ file c, .write file c ∈ later → '/' ∉ file.toList) →
        Agree ps (w.run later) (w'.run (Action.about ps later)) := by
  intro w
  have hreader : w.session.reader = reader := (source_run _ actions).2
  have hloaded : ∀ {p : Part} {wrap : p.Data → Reply} (data : p.Data), Function.Injective wrap →
      ((p.load w.session.directory w.files w.session.reader).map wrap = .ok (wrap data) ↔
        p.States reader (w.content p) data) := by
    intro p wrap data hwrap
    rw [← hreader, content, ← Part.load_eq_ok_iff, Graph.map_eq_ok_iff]
    constructor
    · rintro ⟨data', hload, heq⟩
      exact hwrap heq ▸ hload
    · exact fun hload => ⟨data, hload, rfl⟩
  refine ⟨fun p data => ?_, fun p data => ?_, fun p data hk later => ?_, fun p e he a => ?_,
    fun a => ?_, ⟨rfl, rfl, fun table => ?_, fun table => ?_⟩, ?_⟩
  · refine (kept_run_eq_some_iff _ actions).trans ?_
    cases p <;> simp [start, Session.start, Session.kept]
  · rw [value_eq_ok_iff, hreader]
  · exact value_of_kept ((kept_run_eq_some_iff _ later).mpr (Or.inl hk))
  · have hnone : (w.perform a).2.session.kept p = none := by
      rw [kept_perform, he, not_kept_of_error he]
      split_ifs <;> rfl
    refine ⟨hnone, fun data => ?_⟩
    rw [value_eq_ok_iff, hnone, (w.source_perform a).2, hreader]
    simp
  · exact ⟨by rw [perform_eq], by rw [perform_eq]; rfl, w.kept_perform a⟩
  · exact hloaded (p := .prefixes) table fun _ _ h => Reply.prefixes.inj h
  · exact hloaded (p := .queries) table fun _ _ h => Reply.queries.inj h
  · intro ps hps w' h later hlater
    exact h.run hps hlater

/-- The prefixes are read from a second version of their file, because the first one is broken, and
they are still kept when the file is gone. The queries do not depend on any of this. -/
theorem run_keeps_mendedPrefixes :
    let actions : List Action := [.write "prefix.yaml" (some "ex: [".toUTF8), .prefixes,
      .write "prefix.yaml" (some "ex: http://b/".toUTF8), .prefixes, .write "prefix.yaml" none]
    let w := (start "cfg" [("prefix.yaml", "ex: http://a/".toUTF8)]).run actions
    w.content .prefixes = none ∧
      (∀ later, (w.run later).value .prefixes = .ok [("ex", "http://b/")]) ∧
      Agree [.queries] (w.run actions) w := by
  intro actions w
  obtain ⟨-, -, hlater, -, -, -, hagree⟩ :=
    run_keeps .yaml "cfg" [("prefix.yaml", "ex: http://a/".toUTF8)] actions
  have hkept : w.session.kept .prefixes = some [("ex", "http://b/")] := by decide +kernel
  refine ⟨by decide +kernel, hlater .prefixes _ hkept, ?_⟩
  have hplain : ∀ file c, Action.write file c ∈ actions → '/' ∉ file.toList := by
    intro file c hmem
    simp only [actions, List.mem_cons, Action.write.injEq, reduceCtorEq, List.not_mem_nil, or_false,
      false_or] at hmem
    rcases hmem with ⟨rfl, -⟩ | ⟨rfl, -⟩ | ⟨rfl, -⟩ <;> decide
  have hqueries := hagree [.queries] (by decide) w
    ⟨rfl, rfl, fun _ _ => rfl, fun _ _ => rfl⟩ actions hplain
  rwa [show Action.about [.queries] actions = [] from rfl, run_nil] at hqueries

/-- A model file that was read before it broke. The prefixes are the same and nothing of them is
kept, but only the session that has the model data comes to read them for a model. -/
theorem brokenModel_prefixes_differ :
    let files : Files := [("model.yaml", "- Entry:\n  - a: ex:Entry\n".toUTF8),
      ("prefix.yaml", "ex: http://a/".toUTF8)]
    let broken : Action := .write "model.yaml" (some "- [".toUTF8)
    let w := (start "cfg" files).run [.modelData, broken]
    let w' := (start "cfg" files).run [broken]
    Agree [.prefixes] w w' ∧
      (w.run [.model]).session.kept .prefixes = some [("ex", "http://a/")] ∧
      (w'.run [.model]).session.kept .prefixes = none := by
  intro files broken w w'
  have hsource := source_run (start "cfg" files) [.modelData, broken]
  have hsource' := source_run (start "cfg" files) [broken]
  refine ⟨⟨hsource.1.trans hsource'.1.symm, hsource.2.trans hsource'.2.symm, ?_, ?_⟩,
    by decide +kernel, by decide +kernel⟩
  · intro p hp
    obtain rfl := List.mem_singleton.mp hp
    decide +kernel
  · intro p hp
    obtain rfl := List.mem_singleton.mp hp
    decide +kernel

end Workspace

end SparqlModel.Config
