import SparqlModel.Proofs.Names
import SparqlModel.Query.Basic

/-!
# Places where a name may start

A prefix is looked for in a text at the places where a name may start. Such a place of a part is one
of the whole if the part itself starts at one. Blanks leave room for a name, and so do the ends of
lines.
-/

namespace SparqlModel

namespace Text

theorem continuesName_of_isBlank {c : Char} (h : isBlank c = true) :
    Query.continuesName c = false := by
  let codes := List.range' 0x09 5 ++ List.range' 0x1c 5 ++ [0x85, 0xa0, 0x1680]
    ++ List.range' 0x2000 11 ++ [0x2028, 0x2029, 0x202f, 0x205f, 0x3000]
  have hcode : c.toNat ∈ codes := by
    simp only [isBlank, inRanges, blankRanges, List.any_cons, List.any_nil, Bool.or_eq_true,
      Bool.and_eq_true, decide_eq_true_eq, Bool.or_false] at h
    simp only [codes, List.mem_append, List.mem_range'_1, List.mem_cons, List.not_mem_nil, or_false]
    omega
  have hall : ∀ k ∈ codes, Query.continuesName (Char.ofNat k) = false := by decide +kernel
  have hc := hall _ hcode
  rwa [Char.ofNat_toNat] at hc

end Text

namespace Query

theorem continuesName_space : continuesName ' ' = false := by
  decide +kernel

def StandsIn (s text : String) : Prop :=
  ∃ front back, text.toList = front ++ s.toList ++ back ∧
    ∀ c ∈ front.getLast?, continuesName c = false

/-- The mark is found behind any text that it does not continue. -/
theorem occursAfter_append {mark rest : List Char} (hmark : mark <+: rest) (before : Option Char)
    (front : List Char) (hplace : ∀ c ∈ front.getLast?.or before, continuesName c = false) :
    occursAfter mark before (front ++ rest) = true := by
  induction front generalizing before with
  | nil =>
    have hbefore : before.any continuesName = false := by
      cases before with
      | none => rfl
      | some c => exact hplace c rfl
    cases rest with
    | nil => simp [occursAfter, List.prefix_nil.mp hmark, hbefore]
    | cons c cs => simp [occursAfter, hbefore, hmark]
  | cons c cs ih =>
    rw [List.cons_append, occursAfter, Bool.or_eq_true]
    refine Or.inr (ih (some c) ?_)
    rw [List.getLast?_cons] at hplace
    cases hlast : cs.getLast? with
    | none => simpa [hlast] using hplace
    | some d => simpa [hlast] using hplace

namespace StandsIn

variable {s t u label : String}

theorem usesPrefix (h : StandsIn (label ++ ":") t) : usesPrefix t.toList label = true := by
  obtain ⟨front, back, ht, hplace⟩ := h
  rw [ht, List.append_assoc]
  apply occursAfter_append
  · simp
  · simpa using hplace

theorem trans (h : StandsIn s t) (h' : StandsIn t u) : StandsIn s u := by
  obtain ⟨front, back, ht, hplace⟩ := h
  obtain ⟨front', back', hu, hplace'⟩ := h'
  refine ⟨front' ++ front, back ++ back', by simp [hu, ht, List.append_assoc], fun c hc => ?_⟩
  rw [List.getLast?_append] at hc
  cases hlast : front.getLast? with
  | none =>
    rw [hlast] at hc
    exact hplace' c hc
  | some d =>
    rw [hlast] at hc
    exact hplace c (hlast ▸ hc)

theorem append {front back : String} (h : ∀ c ∈ front.toList.getLast?, continuesName c = false) :
    StandsIn s (front ++ s ++ back) :=
  ⟨front.toList, back.toList, by simp, h⟩

theorem append_right (s back : String) : StandsIn s (s ++ back) :=
  ⟨[], back.toList, by simp, by simp⟩

theorem append_behind (gap : String) {c : Char} (hlast : gap.toList.getLast? = some c)
    (hc : continuesName c = false) (front back : String) :
    StandsIn s (front ++ gap ++ s ++ back) := by
  apply append
  intro d hd
  rw [String.toList_append, List.getLast?_append, hlast] at hd
  obtain rfl : c = d := Option.some.inj hd
  exact hc

theorem intercalate {separator : String} {c : Char}
    (hlast : separator.toList.getLast? = some c) (hc : continuesName c = false)
    (before after : List String) : StandsIn s (separator.intercalate (before ++ s :: after)) := by
  have htail : ∃ back, separator.intercalate (s :: after) = s ++ back := by
    cases after with
    | nil => exact ⟨"", by simp⟩
    | cons t rest => exact ⟨_, by rw [String.intercalate_cons_cons, String.append_assoc]⟩
  obtain ⟨back, hback⟩ := htail
  cases before with
  | nil =>
    rw [List.nil_append, hback]
    exact append_right s back
  | cons t rest =>
    rw [String.intercalate_append_of_ne_nil (by simp) (by simp), hback, ← String.append_assoc]
    exact append_behind separator hlast hc _ back

theorem line {lines : List String} (h : s ∈ lines) : StandsIn s ("\n".intercalate lines) := by
  obtain ⟨before, after, rfl⟩ := List.append_of_mem h
  exact intercalate (c := '\n') rfl (by decide +kernel) before after

theorem of_prefixOf? {uri : String} (h : Uri.prefixOf? uri = some label) :
    StandsIn (label ++ ":") uri := by
  have hsplit := List.takeWhile_append_dropWhile (p := Text.isWord) (l := uri.toList)
  unfold Uri.prefixOf? at h
  dsimp only at h
  split at h
  · cases h
  · split at h
    · rename_i rest hrest
      split at h
      · cases h
      · refine ⟨[], rest, ?_, by simp⟩
        rw [hrest] at hsplit
        rw [← hsplit, ← Option.some.inj h]
        simp
    · cases h

end StandsIn

end Query

end SparqlModel
