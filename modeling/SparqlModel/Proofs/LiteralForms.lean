import SparqlModel.Proofs.TextParts
import SparqlModel.Term.Literal
import SparqlModel.Value.Knot

/-!
# Written literals

A literal is written as its text between double quotes, followed by its language tag or its
datatype. What was written is read again as the same literal, whatever characters the text has and
whatever blanks stand around it. Only a text with a quote and two carets in it cannot do without a
tag or a datatype, since the rest of it would be taken for a datatype. A text without quotes around
it is kept as it is.
-/

namespace SparqlModel

namespace Text

/-- Two remainders of a text that start at its last mark are the same. -/
theorem eq_of_mark_suffix {mark : Char} {before xs ys : List Char}
    (h : mark :: ys <:+ before ++ mark :: xs) (hy : mark ∉ ys) (hx : mark ∉ xs) : ys = xs := by
  rcases List.suffix_or_suffix_of_suffix h (List.suffix_append before (mark :: xs)) with hs | hs
  · rcases List.suffix_cons_iff.mp hs with heq | hs
    · exact (List.cons.inj heq).2
    · exact absurd (hs.subset List.mem_cons_self) hx
  · rcases List.suffix_cons_iff.mp hs with heq | hs
    · exact (List.cons.inj heq).2.symm
    · exact absurd (hs.subset List.mem_cons_self) hy

theorem occursIn_iff_isInfix {pattern cs : List Char} :
    occursIn pattern cs = true ↔ pattern <:+: cs := by
  induction cs with
  | nil => rw [occursIn, List.isEmpty_iff, List.infix_nil]
  | cons c cs ih =>
    rw [occursIn, Bool.or_eq_true, List.isPrefixOf_iff_prefix, ih, List.infix_cons_iff]

theorem isBlank_of_le {c : Char} (h : 45 ≤ c.toNat ∧ c.toNat ≤ 122) : isBlank c = false := by
  have hapart : ∀ r ∈ blankRanges, r.2 < 45 ∨ 122 < r.1 := by decide
  rw [isBlank, inRanges, List.any_eq_false]
  intro r hr
  have := hapart r hr
  simp only [Bool.and_eq_true, decide_eq_true_eq, not_and, not_le]
  omega

end Text

namespace Literal

def isList (v : Value) : Bool :=
  match v.unfold with
  | .list _ => true
  | _ => false

/-- The literals that can be written: text with a language tag, with a datatype, or with neither if
it has no quote with two carets; and other values that are neither null nor lists. -/
def isWritable : Value → Option String → Option String → Bool
  | .scalar (.text _), some lang, none => isLanguageTag lang.toList
  | .scalar (.text _), none, some datatype =>
    datatype != "" && datatype.toList.all fun c => !Text.isBlank c && c != '\x22'
  | .scalar (.text s), none, none => !Text.occursIn ['\x22', '^', '^'] s.toList
  | .scalar (.text _), some _, some _ => false
  | v, none, none => !v.isNull && !isList v
  | _, _, _ => false

def tail (lang datatype : Option String) : List Char :=
  match lang, datatype with
  | some lang, _ => '@' :: lang.toList
  | none, some datatype => '^' :: '^' :: datatype.toList
  | none, none => []

def write (value : Value) (lang datatype : Option String) : Value :=
  match value with
  | .scalar (.text s) =>
    .text (String.ofList ('\x22' :: (s.toList ++ '\x22' :: tail lang datatype)))
  | v => v

theorem mem_isSubtags {started : Bool} {cs : List Char} (h : isSubtags started cs = true) {c : Char}
    (hc : c ∈ cs) : c.isAlphanum = true ∨ c = '-' := by
  fun_induction isSubtags started cs with
  | case1 => cases hc
  | case2 started cs ih =>
    rcases List.mem_cons.mp hc with rfl | hc
    · exact Or.inr rfl
    · exact ih (Bool.and_eq_true _ _ ▸ h).2 hc
  | case3 started d cs _ ih =>
    rcases List.mem_cons.mp hc with rfl | hc
    · exact Or.inl (Bool.and_eq_true _ _ ▸ h).1
    · exact ih (Bool.and_eq_true _ _ ▸ h).2 hc

theorem mem_isTagFrom {started : Bool} {cs : List Char} (h : isTagFrom started cs = true) {c : Char}
    (hc : c ∈ cs) : c.isAlphanum = true ∨ c = '-' := by
  fun_induction isTagFrom started cs with
  | case1 => cases hc
  | case2 started cs =>
    rcases List.mem_cons.mp hc with rfl | hc
    · exact Or.inr rfl
    · exact mem_isSubtags (Bool.and_eq_true _ _ ▸ h).2 hc
  | case3 started d cs _ ih =>
    rcases List.mem_cons.mp hc with rfl | hc
    · have halpha : c.isAlpha = true := (Bool.and_eq_true _ _ ▸ h).1
      exact Or.inl (by rw [Char.isAlphanum, halpha, Bool.true_or])
    · exact ih (Bool.and_eq_true _ _ ▸ h).2 hc

theorem isBlank_of_mem_tag {tag : List Char} (h : isLanguageTag tag = true) {c : Char}
    (hc : c ∈ tag) : Text.isBlank c = false ∧ c ≠ '\x22' := by
  have hrange : 45 ≤ c.toNat ∧ c.toNat ≤ 122 := by
    rcases mem_isTagFrom h hc with hc | rfl
    · change (decide ('A'.val ≤ c.val ∧ c.val ≤ 'Z'.val) || ('a'.val ≤ c.val && c.val ≤ 'z'.val)
        || ('0'.val ≤ c.val && c.val ≤ '9'.val)) = true at hc
      simp only [Bool.or_eq_true, Bool.and_eq_true, decide_eq_true_eq,
        UInt32.le_iff_toNat_le] at hc
      change ((65 ≤ c.toNat ∧ c.toNat ≤ 90) ∨ (97 ≤ c.toNat ∧ c.toNat ≤ 122)) ∨
        (48 ≤ c.toNat ∧ c.toNat ≤ 57) at hc
      omega
    · decide
  refine ⟨Text.isBlank_of_le hrange, ?_⟩
  rintro rfl
  exact absurd hrange (by decide)

theorem languageTail?_eq_some {s : List Char} {lang : String} (h : languageTail? s = some lang) :
    s = '\x22' :: '@' :: lang.toList ∧ isLanguageTag lang.toList = true := by
  unfold languageTail? at h
  split at h
  · split_ifs at h with htag
    rw [← Option.some.inj h, String.toList_ofList]
    exact ⟨rfl, htag⟩
  · cases h

theorem datatypeTail?_eq_some {s : List Char} {datatype : String}
    (h : datatypeTail? s = some datatype) :
    s = '\x22' :: '^' :: '^' :: datatype.toList ∧ datatype ≠ "" := by
  unfold datatypeTail? at h
  split at h
  · split_ifs at h with hd
    rw [← Option.some.inj h, String.toList_ofList]
    simp only [Bool.and_eq_true, Bool.not_eq_true', List.isEmpty_eq_false_iff] at hd
    exact ⟨rfl, by simpa using hd.1⟩
  · cases h

theorem head?_of_languageTail? (s : List Char) (lang : String) (h : languageTail? s = some lang) :
    s.head? = some '\x22' := by
  rw [(languageTail?_eq_some h).1]
  rfl

theorem head?_of_datatypeTail? (s : List Char) (datatype : String)
    (h : datatypeTail? s = some datatype) : s.head? = some '\x22' := by
  rw [(datatypeTail?_eq_some h).1]
  rfl

theorem head?_of_closingTail? (s : List Char) (u : Unit) (h : closingTail? s = some u) :
    s.head? = some '\x22' := by
  unfold closingTail? at h
  split at h
  · rfl
  · cases h

/-- No language tag is found where the last quote has something else behind it. -/
theorem languageTail?_eq_none {t rest : List Char} (hrest : '\x22' ∉ rest)
    (hhead : rest.head? ≠ some '@') : ∀ r, r <:+ t ++ '\x22' :: rest → languageTail? r = none := by
  intro r hr
  by_contra hne
  obtain ⟨lang, hlang⟩ := Option.ne_none_iff_exists'.mp hne
  obtain ⟨rfl, htag⟩ := languageTail?_eq_some hlang
  have hquote : '\x22' ∉ '@' :: lang.toList := by
    rw [List.mem_cons, not_or]
    exact ⟨by decide, fun hc => (isBlank_of_mem_tag htag hc).2 rfl⟩
  rw [← Text.eq_of_mark_suffix hr hquote hrest] at hhead
  exact hhead rfl

theorem datatypeTail?_eq_none {t : List Char} (h : Text.occursIn ['\x22', '^', '^'] t = false) :
    ∀ r, r <:+ t ++ ['\x22'] → datatypeTail? r = none := by
  intro r hr
  by_contra hne
  obtain ⟨datatype, hdatatype⟩ := Option.ne_none_iff_exists'.mp hne
  obtain ⟨rfl, hd⟩ := datatypeTail?_eq_some hdatatype
  obtain ⟨before, hbefore⟩ := hr
  have hnil : datatype.toList ≠ [] := by simpa using hd
  have hinfix : ['\x22', '^', '^'] <:+: t := by
    refine ⟨before, datatype.toList.dropLast, ?_⟩
    have hdrop := congrArg List.dropLast hbefore
    rw [List.dropLast_concat] at hdrop
    rw [← hdrop, List.append_assoc, List.dropLast_append_of_ne_nil (by simp)]
    simp [List.dropLast_cons_of_ne_nil, hnil]
  rw [Text.occursIn_iff_isInfix.mpr hinfix] at h
  cases h

theorem quotedParts?_language (t : List Char) {tag : List Char} (h : isLanguageTag tag = true) :
    quotedParts? ('\x22' :: (t ++ '\x22' :: '@' :: tag)) = some (t, some (String.ofList tag), none) := by
  have haccept : languageTail? ('\x22' :: '@' :: tag) = some (String.ofList tag) := by
    simp [languageTail?, h]
  have hquote : '\x22' ∉ '@' :: tag := by
    rw [List.mem_cons, not_or]
    exact ⟨by decide, fun hc => (isBlank_of_mem_tag h hc).2 rfl⟩
  have hsplit := Text.splitLast?_append haccept
    (Text.accept_eq_none head?_of_languageTail? hquote) t
  simp [quotedParts?, hsplit]

theorem quotedParts?_datatype (t : List Char) {d : List Char} (hne : d ≠ [])
    (h : ∀ c ∈ d, Text.isBlank c = false ∧ c ≠ '\x22') :
    quotedParts? ('\x22' :: (t ++ '\x22' :: '^' :: '^' :: d)) =
      some (t, none, some (String.ofList d)) := by
  have haccept : datatypeTail? ('\x22' :: '^' :: '^' :: d) = some (String.ofList d) := by
    have hblanks : ∀ c ∈ d, Text.isBlank c = false := fun c hc => (h c hc).1
    simpa [datatypeTail?, hne] using hblanks
  have hquote : '\x22' ∉ '^' :: '^' :: d := by
    simp only [List.mem_cons, not_or]
    exact ⟨by decide, by decide, fun hc => (h _ hc).2 rfl⟩
  have hsplit := Text.splitLast?_append haccept
    (Text.accept_eq_none head?_of_datatypeTail? hquote) t
  have hlang := Text.splitLast?_eq_none_iff.mpr (languageTail?_eq_none (t := t) hquote (by simp))
  simp [quotedParts?, hlang, hsplit]

theorem quotedParts?_plain {t : List Char} (h : Text.occursIn ['\x22', '^', '^'] t = false) :
    quotedParts? ('\x22' :: (t ++ ['\x22'])) = some (t, none, none) := by
  have hclose : closingTail? ['\x22'] = some () := rfl
  have hsplit := Text.splitLast?_append hclose (by simp [closingTail?]) t
  have hlang := Text.splitLast?_eq_none_iff.mpr
    (languageTail?_eq_none (t := t) (List.not_mem_nil (a := '\x22')) (by simp))
  have hdatatype := Text.splitLast?_eq_none_iff.mpr (datatypeTail?_eq_none h)
  simp [quotedParts?, hlang, hdatatype, hsplit]

variable {s : String} {lang datatype : Option String}

theorem isBlank_of_mem_tail (h : isWritable (.scalar (.text s)) lang datatype = true) {c : Char}
    (hc : c ∈ tail lang datatype) : Text.isBlank c = false ∧ c ≠ '\x22' := by
  unfold tail at hc
  split at hc
  · rename_i lang
    cases datatype with
    | some datatype => cases h
    | none =>
      rcases List.mem_cons.mp hc with rfl | hc
      · decide
      · exact isBlank_of_mem_tag h hc
  · simp only [isWritable, Bool.and_eq_true, List.all_eq_true, Bool.not_eq_true', bne_iff_ne] at h
    rcases List.mem_cons.mp hc with rfl | hc
    · decide
    · rcases List.mem_cons.mp hc with rfl | hc
      · decide
      · exact h.2 c hc
  · cases hc

/-- The parts of a quoted text are found again. -/
theorem quotedParts?_tail (h : isWritable (.scalar (.text s)) lang datatype = true) :
    quotedParts? ('\x22' :: (s.toList ++ '\x22' :: tail lang datatype)) =
      some (s.toList, lang, datatype) := by
  cases lang with
  | some lang =>
    cases datatype with
    | some datatype => cases h
    | none => simpa [tail] using quotedParts?_language s.toList (h : isLanguageTag lang.toList = true)
  | none =>
    cases datatype with
    | some datatype =>
      simp only [isWritable, Bool.and_eq_true, List.all_eq_true, Bool.not_eq_true',
        bne_iff_ne] at h
      simpa [tail] using quotedParts?_datatype s.toList (by simpa using h.1) h.2
    | none => exact quotedParts?_plain (by simpa [isWritable] using h)

theorem strip_quoted (h : isWritable (.scalar (.text s)) lang datatype = true) :
    let cs := '\x22' :: (s.toList ++ '\x22' :: tail lang datatype)
    Text.strip (String.ofList cs) = String.ofList cs := by
  intro cs
  rw [Text.strip_eq_self_iff, String.toList_ofList, Text.trimBy_eq_self_iff]
  constructor
  · intro c hc
    obtain rfl : '\x22' = c := Option.some.inj hc
    decide
  · intro c hc
    have hlast : c ∈ '\x22' :: tail lang datatype := by
      refine List.mem_of_getLast? (?_ : _ = some c)
      simpa [cs, List.getLast?_append, List.getLast?_cons] using hc
    rcases List.mem_cons.mp hlast with rfl | hc
    · decide
    · exact (isBlank_of_mem_tail h hc).1

/-- A text is read with its tag or datatype from what was written for it, whatever blanks stand
around it. -/
theorem read_around (h : isWritable (.scalar (.text s)) lang datatype = true) (w w' : String)
    (hw : ∀ c ∈ w.toList, Text.isBlank c = true) (hw' : ∀ c ∈ w'.toList, Text.isBlank c = true) :
    let cs := '\x22' :: (s.toList ++ '\x22' :: tail lang datatype)
    read (.scalar (.text (w ++ String.ofList cs ++ w'))) = ⟨.text s, lang, datatype⟩ := by
  intro cs
  rw [read, Text.strip_around hw hw' (strip_quoted h), String.toList_ofList, quotedParts?_tail h]
  simp

theorem read_quoted (h : isWritable (.scalar (.text s)) lang datatype = true) :
    let cs := '\x22' :: (s.toList ++ '\x22' :: tail lang datatype)
    read (.scalar (.text (String.ofList cs))) = ⟨.text s, lang, datatype⟩ := by
  intro cs
  have hread : read (.scalar (.text ("" ++ String.ofList cs ++ ""))) = ⟨.text s, lang, datatype⟩ :=
    read_around h "" "" (by simp) (by simp)
  rwa [String.empty_append, String.append_empty] at hread

theorem isWritable_of_not_text {value : Value} {lang datatype : Option String}
    (hne : ∀ s, value ≠ .scalar (.text s)) (h : isWritable value lang datatype = true) :
    lang = none ∧ datatype = none ∧ value.isNull = false ∧ isList value = false := by
  unfold isWritable at h
  split at h
  case h_5 => simpa using h
  case h_6 => cases h
  all_goals exact absurd rfl (hne _)

theorem datatype_ne_of_quotedParts? {cs t : List Char} {lang : Option String} {datatype : String}
    (h : quotedParts? cs = some (t, lang, some datatype)) : datatype ≠ "" := by
  unfold quotedParts? at h
  split at h
  · split at h
    · cases h
    · split at h
      · rename_i hsplit
        cases h
        obtain ⟨_, -, htail⟩ := Text.splitLast?_eq_some hsplit
        exact (datatypeTail?_eq_some htail).2
      · obtain ⟨_, _, heq⟩ := Option.map_eq_some_iff.mp h
        cases heq
  · cases h

/-- No literal that is read has an empty datatype. -/
theorem datatype_read_ne (v : Value) : (read v).datatype ≠ some "" := by
  intro h
  unfold read at h
  split at h
  · split at h
    · rename_i hparts
      obtain rfl : _ = some "" := h
      exact datatype_ne_of_quotedParts? hparts rfl
    · cases h
  · cases h

/-- The grammar of language tags: letters, and behind hyphens any number of subtags of letters and
digits. -/
def IsTag (tag : List Char) : Prop :=
  ∃ (first : List Char) (subtags : List (List Char)),
    (first ≠ [] ∧ ∀ c ∈ first, c.isAlpha = true) ∧
    (∀ subtag ∈ subtags, subtag ≠ [] ∧ ∀ c ∈ subtag, c.isAlphanum = true) ∧
    tag = first ++ subtags.flatMap ('-' :: ·)

variable {started : Bool} {word : List Char}

theorem isSubtags_append (hword : ∀ c ∈ word, c.isAlphanum = true) (hne : word ≠ [] ∨ started = true)
    (rest : List Char) : isSubtags started (word ++ rest) = isSubtags true rest := by
  induction word generalizing started with
  | nil => rw [hne.resolve_left (by simp), List.nil_append]
  | cons c word ih =>
    have hc : c.isAlphanum = true := hword c List.mem_cons_self
    have hhyphen : c ≠ '-' := by
      rintro rfl
      exact absurd hc (by decide)
    have hmore : isSubtags true (word ++ rest) = isSubtags true rest :=
      ih (fun d hd => hword d (List.mem_cons_of_mem c hd)) (Or.inr rfl)
    rw [List.cons_append, isSubtags, hc, Bool.true_and, hmore]
    exact hhyphen

theorem isTagFrom_append (hword : ∀ c ∈ word, c.isAlpha = true) (hne : word ≠ [] ∨ started = true)
    (rest : List Char) : isTagFrom started (word ++ rest) = isTagFrom true rest := by
  induction word generalizing started with
  | nil => rw [hne.resolve_left (by simp), List.nil_append]
  | cons c word ih =>
    have hc : c.isAlpha = true := hword c List.mem_cons_self
    have hhyphen : c ≠ '-' := by
      rintro rfl
      exact absurd hc (by decide)
    have hmore : isTagFrom true (word ++ rest) = isTagFrom true rest :=
      ih (fun d hd => hword d (List.mem_cons_of_mem c hd)) (Or.inr rfl)
    rw [List.cons_append, isTagFrom, hc, Bool.true_and, hmore]
    exact hhyphen

theorem isSubtags_flatMap {subtags : List (List Char)}
    (h : ∀ subtag ∈ subtags, subtag ≠ [] ∧ ∀ c ∈ subtag, c.isAlphanum = true) :
    isSubtags true (subtags.flatMap ('-' :: ·)) = true := by
  induction subtags with
  | nil => rfl
  | cons subtag rest ih =>
    obtain ⟨⟨hne, hword⟩, hrest⟩ := List.forall_mem_cons.mp h
    rw [List.flatMap_cons, List.cons_append, isSubtags, Bool.true_and,
      isSubtags_append hword (Or.inl hne), ih hrest]

theorem isLanguageTag_of_isTag {tag : List Char} (h : IsTag tag) : isLanguageTag tag = true := by
  obtain ⟨first, subtags, ⟨hne, hfirst⟩, hsubtags, rfl⟩ := h
  rw [isLanguageTag, isTagFrom_append hfirst (Or.inl hne)]
  cases subtags with
  | nil => rfl
  | cons subtag rest =>
    have hrest := isSubtags_flatMap hsubtags
    rw [List.flatMap_cons, List.cons_append, isSubtags, Bool.true_and] at hrest
    rw [List.flatMap_cons, List.cons_append, isTagFrom, Bool.true_and, hrest]

theorem exists_quotes_of_quotedParts? {cs : List Char}
    {parts : List Char × Option String × Option String} (h : quotedParts? cs = some parts) :
    ∃ rest, cs = '\x22' :: rest ∧ '\x22' ∈ rest := by
  unfold quotedParts? at h
  split at h
  · rename_i rest
    refine ⟨rest, rfl, ?_⟩
    by_contra hquote
    have hlang := Text.splitLast?_eq_none_iff.mpr
      (Text.accept_eq_none head?_of_languageTail? hquote)
    have hdatatype := Text.splitLast?_eq_none_iff.mpr
      (Text.accept_eq_none head?_of_datatypeTail? hquote)
    have hclose := Text.splitLast?_eq_none_iff.mpr
      (Text.accept_eq_none head?_of_closingTail? hquote)
    simp [hlang, hdatatype, hclose] at h
  · cases h

/-- No text has a language tag and a datatype. -/
theorem quotedParts?_not_both {cs t : List Char} {lang datatype : Option String}
    (h : quotedParts? cs = some (t, lang, datatype)) : lang = none ∨ datatype = none := by
  unfold quotedParts? at h
  split at h
  · split at h
    · cases h
      exact Or.inr rfl
    · split at h
      · cases h
        exact Or.inl rfl
      · obtain ⟨_, -, heq⟩ := Option.map_eq_some_iff.mp h
        cases heq
        exact Or.inl rfl
  · cases h

/-- An example literal is divided at the intended quote, whatever characters its text has and
whatever blanks stand around it: before a language tag, before a datatype, and at the end unless the
text has a quote with two carets. A text that is not quoted is kept with its blanks, and no literal
has a tag and a datatype. -/
theorem read_splits (t w w' : String) (hw : ∀ c ∈ w.toList, Text.isBlank c = true)
    (hw' : ∀ c ∈ w'.toList, Text.isBlank c = true) :
    (∀ lang : String, IsTag lang.toList →
      read (.text (w ++ "\x22" ++ t ++ "\x22@" ++ lang ++ w')) = ⟨.text t, some lang, none⟩) ∧
    (∀ datatype : String, datatype ≠ "" →
      (∀ c ∈ datatype.toList, Text.isBlank c = false ∧ c ≠ '\x22') →
      read (.text (w ++ "\x22" ++ t ++ "\x22^^" ++ datatype ++ w')) =
        ⟨.text t, none, some datatype⟩) ∧
    (¬ ['\x22', '^', '^'] <:+: t.toList →
      read (.text (w ++ "\x22" ++ t ++ "\x22" ++ w')) = ⟨.text t, none, none⟩) ∧
    (∀ s : String, (¬ ∃ rest, (Text.strip s).toList = '\x22' :: rest ∧ '\x22' ∈ rest) →
      read (.text s) = ⟨.text s, none, none⟩) ∧
    ∀ v : Value, (read v).lang = none ∨ (read v).datatype = none := by
  have hread : ∀ lang datatype, isWritable (.scalar (.text t)) lang datatype = true →
      read (.text (w ++ "\x22" ++ t ++ String.ofList ('\x22' :: tail lang datatype) ++ w')) =
        ⟨.text t, lang, datatype⟩ := by
    intro lang datatype h
    have hcs : w ++ "\x22" ++ t ++ String.ofList ('\x22' :: tail lang datatype) ++ w' =
        w ++ String.ofList ('\x22' :: (t.toList ++ '\x22' :: tail lang datatype)) ++ w' := by
      rw [← String.toList_inj]
      simp
    rw [hcs]
    exact read_around h w w' hw hw'
  refine ⟨fun lang htag => ?_, fun datatype hne hplain => ?_, fun h => ?_, fun s h => ?_,
    fun v => ?_⟩
  · have htail : String.ofList ('\x22' :: tail (some lang) none) = "\x22@" ++ lang := by
      rw [← String.toList_inj]
      simp [tail]
    have hlang := hread (some lang) none (isLanguageTag_of_isTag htag)
    rwa [htail, ← String.append_assoc] at hlang
  · have htail : String.ofList ('\x22' :: tail none (some datatype)) = "\x22^^" ++ datatype := by
      rw [← String.toList_inj]
      simp [tail]
    have hwritable : isWritable (.scalar (.text t)) none (some datatype) = true := by
      simpa [isWritable, hne] using hplain
    have hdatatype := hread none (some datatype) hwritable
    rwa [htail, ← String.append_assoc] at hdatatype
  · refine hread none none ?_
    rw [isWritable, Bool.not_eq_true', ← Bool.not_eq_true, Text.occursIn_iff_isInfix]
    exact h
  · cases hparts : quotedParts? (Text.strip s).toList with
    | none =>
      rw [Value.text, read, hparts]
      rfl
    | some parts => exact absurd (exists_quotes_of_quotedParts? hparts) h
  · unfold read
    split
    · split
      · rename_i hparts
        exact quotedParts?_not_both hparts
      · exact Or.inl rfl
    · exact Or.inl rfl

theorem read_splits_taggedQuote :
    IsTag "en-GB".toList ∧
      read (.text " \x22say \x22chat\x22@fr\x22@en-GB\n") =
        ⟨.text "say \x22chat\x22@fr", some "en-GB", none⟩ := by
  have htag : IsTag "en-GB".toList :=
    ⟨['e', 'n'], [['G', 'B']], ⟨by simp, by simp⟩, by simp, rfl⟩
  have hspace : Text.isBlank ' ' = true := by decide
  have hfeed : Text.isBlank '\n' = true := by decide
  have hread := (read_splits "say \x22chat\x22@fr" " " "\n" (by simpa using hspace)
    (by simpa using hfeed)).1 "en-GB" htag
  exact ⟨htag, hread⟩

end Literal

end SparqlModel
