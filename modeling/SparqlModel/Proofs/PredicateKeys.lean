import Mathlib.Data.Nat.Digits.Defs
import SparqlModel.Cardinality
import SparqlModel.Proofs.TextParts

/-!
# Predicate keys with suffixes

A suffix of a predicate key is a mark, or one or two bounds between braces. The bounds are written
with digits of any script, they may be left out, and blanks may stand around them. A key with a
suffix is divided again into the URI and the cardinality, whatever characters the URI has, as long
as no bound has too many digits. A key is all URI only if it has no suffix.
-/

namespace SparqlModel

namespace Text

theorem isBlank_of_isDigit {c : Char} (h : isDigit c = true) : isBlank c = false := by
  have hapart : ∀ z ∈ zeros, ∀ r ∈ blankRanges, z + 9 < r.1 ∨ r.2 < z := by decide +kernel
  obtain ⟨d, hd⟩ := Option.isSome_iff_exists.mp h
  obtain ⟨z, hz, hif⟩ := List.exists_of_findSome?_eq_some hd
  split_ifs at hif with hrange
  simp only [Bool.and_eq_true, decide_eq_true_eq] at hrange
  rw [isBlank, inRanges, List.any_eq_false]
  intro r hr
  have := hapart z hz r hr
  simp only [Bool.and_eq_true, decide_eq_true_eq, not_and, not_le]
  omega

theorem digitValue?_of_isDigit {c : Char} (h : c.isDigit = true) :
    digitValue? c = some (c.toNat - 48) := by
  have hrange : 48 ≤ c.toNat ∧ c.toNat ≤ 57 := Char.isDigit_iff_toNat.mp h
  have hcond : (0x30 ≤ c.toNat && c.toNat ≤ 0x30 + 9) = true := by
    simp only [Bool.and_eq_true, decide_eq_true_eq]
    omega
  rw [digitValue?, zeros, List.findSome?_cons, if_pos hcond]

theorem isDigit_of_isDigit {c : Char} (h : c.isDigit = true) : isDigit c = true := by
  rw [isDigit, digitValue?_of_isDigit h, Option.isSome_some]

/-- The number that digits of any script denote. -/
def valueOf (cs : List Char) : ℕ :=
  Nat.ofDigits 10 (cs.filterMap digitValue?).reverse

theorem ofDigits_eq (ds : List ℕ) : ofDigits ds = Nat.ofDigits 10 ds.reverse := by
  rw [ofDigits, Nat.ofDigits_eq_foldr, List.foldr_reverse]
  congr 1
  funext n d
  simp only [Nat.cast_id]
  omega

theorem valueOf_toDigits (n : ℕ) : valueOf (Nat.toDigits 10 n) = n := by
  have hvalues : (Nat.toDigits 10 n).filterMap digitValue? =
      (Nat.toDigits 10 n).map fun c => c.toNat - 48 := by
    rw [← List.filterMap_eq_map]
    apply List.filterMap_congr
    intro c hc
    exact digitValue?_of_isDigit (Nat.isDigit_of_mem_toDigits (by decide) (by decide) hc)
  have hfold := Nat.ofDigitChars_ten_toDigits (n := n)
  rw [Nat.ofDigitChars_eq_foldl, ← List.foldl_map] at hfold
  rwa [valueOf, hvalues, ← ofDigits_eq]

variable {cs : List Char}

theorem digits?_eq (hne : cs ≠ []) (h : ∀ c ∈ cs, isDigit c = true) :
    digits? cs = some (cs.filterMap digitValue?) := by
  induction cs with
  | nil => exact absurd rfl hne
  | cons c rest ih =>
    obtain ⟨v, hv⟩ := Option.isSome_iff_exists.mp (h c List.mem_cons_self)
    cases rest with
    | nil => simp [digits?, hv]
    | cons d rest =>
      have hd : d ≠ '_' := by
        rintro rfl
        exact absurd (h '_' (by simp)) (by decide)
      have hrest := ih (by simp) fun e he => h e (List.mem_cons_of_mem c he)
      simp [digits?, hv, hd, hrest]

theorem length_filterMap_digitValue? (h : ∀ c ∈ cs, isDigit c = true) :
    (cs.filterMap digitValue?).length = cs.length := by
  induction cs with
  | nil => rfl
  | cons c rest ih =>
    obtain ⟨v, hv⟩ := Option.isSome_iff_exists.mp (h c List.mem_cons_self)
    rw [List.filterMap_cons_some hv, List.length_cons, List.length_cons,
      ih fun d hd => h d (List.mem_cons_of_mem c hd)]

/-- Digits are read as a number unless there are too many. -/
theorem readNat?_eq (hne : cs ≠ []) (h : ∀ c ∈ cs, isDigit c = true) :
    readNat? cs = if cs.length ≤ 4300 then some (valueOf cs) else none := by
  rw [readNat?, digits?_eq hne h]
  simp [length_filterMap_digitValue? h, digitLimit, ofDigits_eq, valueOf]

end Text

namespace Cardinality

/-- A bound as it is written: digits of any script, or none, with blanks around them. -/
structure Bound where
  before : List Char
  digits : List Char
  after : List Char
  blank_before : ∀ c ∈ before, Text.isBlank c = true
  digit_digits : ∀ c ∈ digits, Text.isDigit c = true
  blank_after : ∀ c ∈ after, Text.isBlank c = true

namespace Bound

def chars (b : Bound) : List Char :=
  b.before ++ (b.digits ++ b.after)

def value (b : Bound) : Option ℕ :=
  if b.digits = [] then none else some (Text.valueOf b.digits)

def isReadable (b : Bound) : Bool :=
  b.digits.length ≤ 4300

end Bound

/-- A suffix of a predicate key: one of the three marks, or bounds between braces. -/
inductive Suffix
  | optional
  | any
  | repeated
  | exactly (b : Bound)
  | between (low high : Bound)

namespace Suffix

def chars : Suffix → List Char
  | optional => ['?']
  | any => ['*']
  | repeated => ['+']
  | exactly b => '\x7b' :: (b.chars ++ ['\x7d'])
  | between low high => '\x7b' :: (low.chars ++ ',' :: (high.chars ++ ['\x7d']))

/-- What a suffix says. A single number is both bounds. -/
def cardinality : Suffix → Cardinality
  | optional => ⟨some 0, some 1⟩
  | any => ⟨some 0, none⟩
  | repeated => ⟨some 1, none⟩
  | exactly b => ⟨b.value, b.value⟩
  | between low high => ⟨low.value, high.value⟩

def isReadable : Suffix → Bool
  | exactly b => b.isReadable
  | between low high => low.isReadable && high.isReadable
  | _ => true

def boundDigits : Suffix → Option (List Char × Option (List Char))
  | exactly b => some (b.digits, none)
  | between low high => some (low.digits, some high.digits)
  | _ => none

end Suffix

theorem readBound?_digits (b : Bound) :
    readBound? b.digits = if b.isReadable then some b.value else none := by
  by_cases hne : b.digits = []
  · simp [readBound?, Bound.isReadable, Bound.value, hne]
  · rw [readBound?, if_neg (by simpa using hne), Text.readNat?_eq hne b.digit_digits]
    by_cases hlen : b.digits.length ≤ 4300 <;> simp [Bound.isReadable, Bound.value, hne, hlen]

/-- The blanks before a bound are dropped, and those after it too if there are no digits. -/
theorem exists_dropWhile_bound (b : Bound) {mark : Char} (hblank : Text.isBlank mark = false)
    (rest : List Char) : ∃ after, (∀ c ∈ after, Text.isBlank c = true) ∧
      (b.chars ++ mark :: rest).dropWhile Text.isBlank = b.digits ++ (after ++ mark :: rest) := by
  cases hds : b.digits with
  | nil =>
    have hchars : b.chars ++ mark :: rest = b.before ++ (b.after ++ mark :: rest) := by
      simp [Bound.chars, hds]
    refine ⟨[], by simp, ?_⟩
    rw [hchars, List.dropWhile_append_of_pos b.blank_before]
    exact (Text.span_append b.blank_after (by simpa using hblank)).2
  | cons d ds =>
    have hchars : b.chars ++ mark :: rest =
        b.before ++ (d :: ds ++ (b.after ++ mark :: rest)) := by simp [Bound.chars, hds]
    have hd : Text.isBlank d = false :=
      Text.isBlank_of_isDigit (b.digit_digits d (by simp [hds]))
    refine ⟨b.after, b.blank_after, ?_⟩
    rw [hchars]
    exact (Text.span_append b.blank_before (by simpa using hd)).2

/-- The digits of a bound are found before a character that is neither a digit nor a blank. -/
theorem span_bound (b : Bound) {mark : Char} (hdigit : Text.isDigit mark = false)
    (hblank : Text.isBlank mark = false) (rest : List Char) :
    let cs := (b.chars ++ mark :: rest).dropWhile Text.isBlank
    cs.takeWhile Text.isDigit = b.digits ∧
      (cs.dropWhile Text.isDigit).dropWhile Text.isBlank = mark :: rest := by
  obtain ⟨after, hafter, hcs⟩ := exists_dropWhile_bound b hblank rest
  have hstop : ∀ c ∈ (after ++ mark :: rest).head?, Text.isDigit c = false := by
    cases after with
    | nil => simpa using hdigit
    | cons e after =>
      intro c hc
      obtain rfl : e = c := Option.some.inj hc
      by_contra hdigit'
      have hblank' := Text.isBlank_of_isDigit (Bool.not_eq_false _ ▸ hdigit')
      rw [hafter e List.mem_cons_self] at hblank'
      cases hblank'
  obtain ⟨htake, hdrop⟩ := Text.span_append b.digit_digits hstop
  dsimp only
  rw [hcs, htake, hdrop]
  exact ⟨rfl, (Text.span_append hafter (by simpa using hblank)).2⟩

theorem boundDigits?_chars (s : Suffix) : boundDigits? s.chars = s.boundDigits := by
  have hcomma : Text.isDigit ',' = false ∧ Text.isBlank ',' = false := by decide
  have hbrace : Text.isDigit '\x7d' = false ∧ Text.isBlank '\x7d' = false := by decide
  cases s with
  | optional => rfl
  | any => rfl
  | repeated => rfl
  | exactly b =>
    obtain ⟨htake, hdrop⟩ := span_bound b hbrace.1 hbrace.2 []
    simp only [Suffix.chars, boundDigits?, htake, hdrop, Suffix.boundDigits]
  | between low high =>
    obtain ⟨htake, hdrop⟩ := span_bound low hcomma.1 hcomma.2 (high.chars ++ ['\x7d'])
    obtain ⟨htake', hdrop'⟩ := span_bound high hbrace.1 hbrace.2 []
    simp only [Suffix.chars, boundDigits?, htake, hdrop, htake', hdrop', Suffix.boundDigits]

def boundOf (cs : List Char) : Bound where
  before := cs.takeWhile Text.isBlank
  digits := (cs.dropWhile Text.isBlank).takeWhile Text.isDigit
  after := ((cs.dropWhile Text.isBlank).dropWhile Text.isDigit).takeWhile Text.isBlank
  blank_before _ hc := List.mem_takeWhile_imp hc
  digit_digits _ hc := List.mem_takeWhile_imp hc
  blank_after _ hc := List.mem_takeWhile_imp hc

theorem chars_boundOf (cs : List Char) :
    (boundOf cs).chars ++ ((cs.dropWhile Text.isBlank).dropWhile Text.isDigit).dropWhile
      Text.isBlank = cs := by
  simp only [Bound.chars, boundOf, List.append_assoc, List.takeWhile_append_dropWhile]

theorem exists_suffix {cs : List Char} {a : List Char × Option (List Char)}
    (h : boundDigits? cs = some a) : ∃ s : Suffix, s.chars = cs ∧ s.boundDigits = some a := by
  unfold boundDigits? at h
  split at h
  · rename_i rest
    have hrest := chars_boundOf rest
    dsimp only at h
    split at h
    · rename_i hend
      rw [hend] at hrest
      cases h
      exact ⟨.exactly (boundOf rest), by rw [Suffix.chars, hrest], rfl⟩
    · rename_i more hmore
      rw [hmore] at hrest
      have hhigh := chars_boundOf more
      split at h
      · rename_i hend
        rw [hend] at hhigh
        cases h
        exact ⟨.between (boundOf rest) (boundOf more), by rw [Suffix.chars, hhigh, hrest], rfl⟩
      · cases h
    · cases h
  · cases h

def Suffix.last : Suffix → Char
  | optional => '?'
  | any => '*'
  | repeated => '+'
  | _ => '\x7d'

theorem Suffix.getLast?_chars (s : Suffix) : s.chars.getLast? = some s.last := by
  cases s <;> simp [chars, last, List.getLast?_cons]

theorem Suffix.isBlank_last (s : Suffix) : Text.isBlank s.last = false := by
  cases s <;> rfl

theorem Suffix.last_eq_brace_iff (s : Suffix) :
    s.last = '\x7d' ↔ ∃ a, s.boundDigits = some a := by
  cases s <;> simp [last, boundDigits]

theorem brace_notMem_chars (b : Bound) : '\x7b' ∉ b.chars := by
  have hblank : Text.isBlank '\x7b' = false := by decide
  have hdigit : Text.isDigit '\x7b' = false := by decide
  simp only [Bound.chars, List.mem_append, not_or]
  refine ⟨fun h => ?_, fun h => ?_, fun h => ?_⟩
  · simp [b.blank_before _ h] at hblank
  · simp [b.digit_digits _ h] at hdigit
  · simp [b.blank_after _ h] at hblank

theorem boundDigits?_head {cs : List Char} {a : List Char × Option (List Char)}
    (h : boundDigits? cs = some a) : cs.head? = some '\x7b' := by
  unfold boundDigits? at h
  split at h
  · rfl
  · cases h

theorem splitLast?_chars {s : Suffix} {a : List Char × Option (List Char)}
    (ha : s.boundDigits = some a) (before : List Char) :
    Text.splitLast? boundDigits? (before ++ s.chars) = some (before, a) := by
  have hfound := boundDigits?_chars s
  rw [ha] at hfound
  cases s with
  | optional => cases ha
  | any => cases ha
  | repeated => cases ha
  | exactly b =>
    refine Text.splitLast?_append hfound (Text.accept_eq_none (fun _ _ => boundDigits?_head) ?_) _
    simp [brace_notMem_chars]
  | between low high =>
    refine Text.splitLast?_append hfound (Text.accept_eq_none (fun _ _ => boundDigits?_head) ?_) _
    simp [brace_notMem_chars]

theorem splitLast?_mark {s : Suffix} (hs : s.boundDigits = none) (before : List Char) :
    Text.splitLast? boundDigits? (before ++ s.chars) = none := by
  rw [Text.splitLast?_eq_none_iff]
  rintro r ⟨front, hr⟩
  by_contra hne
  obtain ⟨a, ha⟩ := Option.ne_none_iff_exists'.mp hne
  obtain ⟨s', rfl, hs'⟩ := exists_suffix ha
  have hlast := congrArg List.getLast? hr
  rw [List.getLast?_append, List.getLast?_append, s'.getLast?_chars, s.getLast?_chars] at hlast
  have hbrace : s.last = '\x7d' := by
    rw [← s'.last_eq_brace_iff.mpr ⟨a, hs'⟩]
    simpa using hlast.symm
  obtain ⟨a', ha'⟩ := s.last_eq_brace_iff.mp hbrace
  rw [hs] at ha'
  cases ha'

theorem splitMark?_chars {s : Suffix} (hs : s.boundDigits = none) {before : List Char}
    (hne : before ≠ []) : splitMark? (before ++ s.chars) = some (before, s.cardinality) := by
  obtain ⟨d, rest, hd⟩ := List.exists_cons_of_ne_nil (mt List.reverse_eq_nil_iff.mp hne)
  have hbefore : rest.reverse ++ [d] = before := by
    rw [← List.reverse_cons, ← hd, List.reverse_reverse]
  cases s with
  | optional => simp [splitMark?, Suffix.chars, hd, ofMark?, Suffix.cardinality, hbefore]
  | any => simp [splitMark?, Suffix.chars, hd, ofMark?, Suffix.cardinality, hbefore]
  | repeated => simp [splitMark?, Suffix.chars, hd, ofMark?, Suffix.cardinality, hbefore]
  | exactly b => cases hs
  | between low high => cases hs

/-- A mark is found at the end only, and behind something that is not empty. -/
theorem exists_of_splitMark? {cs before : List Char} {k : Cardinality}
    (h : splitMark? cs = some (before, k)) :
    ∃ s : Suffix, before ≠ [] ∧ cs = before ++ s.chars := by
  unfold splitMark? at h
  split at h
  · rename_i c d front hreverse
    obtain ⟨k', hk, heq⟩ := Option.map_eq_some_iff.mp h
    cases heq
    have hcs : cs = (d :: front).reverse ++ [c] := by
      rw [← List.reverse_cons, ← hreverse, List.reverse_reverse]
    unfold ofMark? at hk
    split at hk
    · exact ⟨.optional, by simp, hcs⟩
    · exact ⟨.any, by simp, hcs⟩
    · exact ⟨.repeated, by simp, hcs⟩
    · cases hk
  · cases h

theorem ofBounds?_boundDigits {s : Suffix} {low : List Char} {high : Option (List Char)}
    (h : s.boundDigits = some (low, high)) :
    ofBounds? low high = if s.isReadable then some s.cardinality else none := by
  cases s with
  | optional => cases h
  | any => cases h
  | repeated => cases h
  | exactly b =>
    cases h
    cases hb : b.isReadable <;>
      simp [ofBounds?, readBound?_digits, hb, Suffix.isReadable, Suffix.cardinality]
  | between low high =>
    cases h
    cases hlow : low.isReadable <;> cases hhigh : high.isReadable <;>
      simp [ofBounds?, readBound?_digits, hlow, hhigh, Suffix.isReadable, Suffix.cardinality]

theorem Suffix.isReadable_of_mark {s : Suffix} (h : s.boundDigits = none) :
    s.isReadable = true := by
  cases s with
  | exactly b => cases h
  | between low high => cases h
  | _ => rfl

variable {key : String}

/-- A suffix behind something that is not empty is taken off. -/
theorem splitKey?_of_suffix {before : List Char} (s : Suffix) (hne : before ≠ [])
    (hkey : Text.trimBy Text.isBlank key.toList = before ++ s.chars) :
    splitKey? key = if s.isReadable then
      some (String.ofList (Text.trimBy Text.isBlank before), some s.cardinality) else none := by
  rw [splitKey?, hkey]
  cases hs : s.boundDigits with
  | none =>
    rw [splitLast?_mark hs, splitMark?_chars hs hne, s.isReadable_of_mark hs]
    rfl
  | some a =>
    obtain ⟨low, high⟩ := a
    obtain ⟨c, rest, rfl⟩ := List.exists_cons_of_ne_nil hne
    simp only [splitLast?_chars hs, ofBounds?_boundDigits hs]
    cases s.isReadable <;> rfl

/-- A key without a suffix is all URI. -/
theorem splitKey?_of_no_suffix
    (h : ∀ (before : List Char) (s : Suffix), before ≠ [] →
      Text.trimBy Text.isBlank key.toList ≠ before ++ s.chars) :
    splitKey? key = some (Text.strip key, none) := by
  rw [splitKey?]
  split
  · rename_i c before low high hsplit
    obtain ⟨r, hr, ha⟩ := Text.splitLast?_eq_some hsplit
    obtain ⟨s, rfl, -⟩ := exists_suffix ha
    exact absurd hr.symm (h (c :: before) s (by simp))
  · split
    · rename_i hmark
      obtain ⟨s, hne, hcs⟩ := exists_of_splitMark? hmark
      exact absurd hcs (h _ s hne)
    · rfl

variable {uri : String}

theorem trimBy_append_chars (hne : uri ≠ "") (hstrip : Text.strip uri = uri) (w : List Char)
    (s : Suffix) : Text.trimBy Text.isBlank (uri.toList ++ w ++ s.chars) =
      uri.toList ++ w ++ s.chars := by
  obtain ⟨d, rest, hd⟩ := List.exists_cons_of_ne_nil (mt String.toList_eq_nil_iff.mp hne)
  have htrim := Text.trimBy_eq_self_iff.mp (Text.strip_eq_self_iff.mp hstrip)
  rw [Text.trimBy_eq_self_iff]
  refine ⟨by simpa [hd] using htrim.1, fun c hc => ?_⟩
  rw [List.getLast?_append, s.getLast?_chars] at hc
  obtain rfl : s.last = c := Option.some.inj hc
  exact s.isBlank_last

/-- A suffix is taken off with the blanks around it. -/
theorem splitKey?_append (hne : uri ≠ "") (hstrip : Text.strip uri = uri) (s : Suffix)
    (w w' : String) (hw : ∀ c ∈ w.toList, Text.isBlank c = true)
    (hw' : ∀ c ∈ w'.toList, Text.isBlank c = true) :
    splitKey? (uri ++ w ++ String.ofList s.chars ++ w') =
      if s.isReadable then some (uri, some s.cardinality) else none := by
  have hkey : Text.trimBy Text.isBlank (uri ++ w ++ String.ofList s.chars ++ w').toList =
      uri.toList ++ w.toList ++ s.chars := by
    simpa using Text.trimBy_around (List.forall_mem_nil _) hw'
      (trimBy_append_chars hne hstrip w.toList s)
  have huri : Text.trimBy Text.isBlank (uri.toList ++ w.toList) = uri.toList := by
    simpa using Text.trimBy_around (List.forall_mem_nil _) hw (Text.strip_eq_self_iff.mp hstrip)
  rw [splitKey?_of_suffix s (by simp [hne]) hkey, huri, String.ofList_toList]

/-- A predicate key is divided as it was put together. Behind a URI of any characters a suffix is
taken off with the blanks around it, unless a bound has too many digits. Only one suffix is taken
off: what is left may end in another one. A key is all URI exactly if it does not end in a suffix
with something before it. -/
theorem splitKey?_inverts (hne : uri ≠ "") (hstrip : Text.strip uri = uri) :
    (∀ (s : Suffix) (w w' : String), (∀ c ∈ w.toList, Text.isBlank c = true) →
      (∀ c ∈ w'.toList, Text.isBlank c = true) →
      splitKey? (uri ++ w ++ String.ofList s.chars ++ w') =
        if s.isReadable then some (uri, some s.cardinality) else none) ∧
    (∀ s s' : Suffix, s'.isReadable = true →
      splitKey? (uri ++ String.ofList s.chars ++ String.ofList s'.chars) =
        some (uri ++ String.ofList s.chars, some s'.cardinality)) ∧
    (splitKey? uri = some (uri, none) ↔
      ¬ ∃ (before : List Char) (s : Suffix), before ≠ [] ∧ uri.toList = before ++ s.chars) := by
  have htrim := Text.strip_eq_self_iff.mp hstrip
  refine ⟨splitKey?_append hne hstrip, fun s s' hs' => ?_, ?_⟩
  · have hne' : uri ++ String.ofList s.chars ≠ "" := by simp [hne]
    have hstrip' : Text.strip (uri ++ String.ofList s.chars) = uri ++ String.ofList s.chars := by
      rw [Text.strip_eq_self_iff]
      simpa using trimBy_append_chars hne hstrip [] s
    have hsplit := splitKey?_append hne' hstrip' s' "" "" (by simp) (by simp)
    simpa [hs'] using hsplit
  · constructor
    · rintro h ⟨before, s, hbefore, hcs⟩
      rw [splitKey?_of_suffix s hbefore (htrim.trans hcs)] at h
      split_ifs at h
      simp at h
    · intro h
      have hself : splitKey? uri = some (Text.strip uri, none) :=
        splitKey?_of_no_suffix fun before s hbefore hcs =>
          h ⟨before, s, hbefore, htrim.symm.trans hcs⟩
      rwa [hstrip] at hself

def threeOrMore : Suffix :=
  .between ⟨[' '], ['\u0663'], ['\t'], List.forall_mem_singleton.mpr (by decide),
      List.forall_mem_singleton.mpr (by decide), List.forall_mem_singleton.mpr (by decide)⟩
    ⟨[], [], [], by simp, by simp, by simp⟩

theorem splitKey?_inverts_threeOrMore :
    Text.strip "ex:p\x7b2\x7d" = "ex:p\x7b2\x7d" ∧
      splitKey? "ex:p\x7b2\x7d \x7b \u0663\t,\x7d\n" =
        some ("ex:p\x7b2\x7d", some ⟨some 3, none⟩) := by
  have hstrip : Text.strip "ex:p\x7b2\x7d" = "ex:p\x7b2\x7d" := by decide
  have hspace : Text.isBlank ' ' = true := by decide
  have hfeed : Text.isBlank '\n' = true := by decide
  have hsplit := (splitKey?_inverts (by decide) hstrip).1 threeOrMore " " "\n"
    (by simpa using hspace) (by simpa using hfeed)
  exact ⟨hstrip, hsplit⟩

def boundChars : Option ℕ → List Char
  | none => []
  | some n => Nat.toDigits 10 n

def suffix (c : Cardinality) : String :=
  String.ofList ('\x7b' :: (boundChars c.min ++ ',' :: (boundChars c.max ++ ['\x7d'])))

/-- A bound can be read if it does not have too many digits. -/
def isReadable (bound : Option ℕ) : Bool :=
  bound.all fun n => (Nat.toDigits 10 n).length ≤ Text.digitLimit

/-- A bound that is written in decimal digits without blanks. -/
def Bound.ofValue (bound : Option ℕ) : Bound where
  before := []
  digits := boundChars bound
  after := []
  blank_before := by simp
  digit_digits c hc := by
    cases bound with
    | none => simp [boundChars] at hc
    | some n =>
      exact Text.isDigit_of_isDigit (Nat.isDigit_of_mem_toDigits (by decide) (by decide) hc)
  blank_after := by simp

theorem Bound.value_ofValue (bound : Option ℕ) : (ofValue bound).value = bound := by
  cases bound with
  | none => rfl
  | some n =>
    have hne : Nat.toDigits 10 n ≠ [] := Nat.toDigits_ne_nil
    simp [value, ofValue, boundChars, hne, Text.valueOf_toDigits]

theorem Bound.isReadable_ofValue {bound : Option ℕ}
    (h : Cardinality.isReadable bound = true) : (ofValue bound).isReadable = true := by
  cases bound with
  | none => rfl
  | some n =>
    have hlen : (Nat.toDigits 10 n).length ≤ Text.digitLimit := by
      simpa [Cardinality.isReadable] using h
    exact decide_eq_true hlen

theorem splitKey?_suffix {uri : String} {c : Cardinality} (hne : uri ≠ "")
    (hstrip : Text.strip uri = uri) (hmin : isReadable c.min = true)
    (hmax : isReadable c.max = true) : splitKey? (uri ++ c.suffix) = some (uri, some c) := by
  let s : Suffix := .between (.ofValue c.min) (.ofValue c.max)
  have hchars : String.ofList s.chars = c.suffix := by
    simp [s, Suffix.chars, Bound.chars, Bound.ofValue, suffix]
  have hread : s.isReadable = true := by
    simp [s, Suffix.isReadable, Bound.isReadable_ofValue hmin, Bound.isReadable_ofValue hmax]
  have hvalue : s.cardinality = c := by simp [s, Suffix.cardinality, Bound.value_ofValue]
  have hsplit := splitKey?_append hne hstrip s "" "" (by simp) (by simp)
  simpa [hchars, hread, hvalue] using hsplit

end Cardinality

end SparqlModel
