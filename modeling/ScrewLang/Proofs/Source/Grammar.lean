import ScrewLang.Proofs.Program.Balance
import ScrewLang.Proofs.Program.Unmatched
import ScrewLang.Proofs.Source.Regions
import ScrewLang.Source.Validation

/-!
# The grammar of valid texts

A text is valid when it has a terminator, no NUL byte before it, and balanced braces outside
comments before it. What is wrong with any other text is told by its bytes and by the heights of its
braces, without a scan and without a stack of open braces. Validation accepts just the valid texts,
and reports just this fault.
-/

namespace ScrewLang

namespace Validation

open Scan (Unended Visible modeAt)

variable {source : List UInt8} {offset : Nat}

/-- For every byte of a text the brace that it writes, if it is visible and writes one. -/
def braceWord (source : List UInt8) : List (Option Brace) :=
  source.mapIdx fun offset b => if Visible source offset then Brace.ofByte? b else none

/-- No NUL byte stands before the first terminator, in a comment or not. -/
def NulFree (source : List UInt8) : Prop :=
  ∀ offset, Unended source offset → source[offset]? ≠ some 0

/-- What makes a text a program. -/
structure Grammatical (source : List UInt8) : Prop where
  terminated : Scan.terminator ∈ source
  nulFree : NulFree source
  balanced : Jumps.Balanced (braceWord source)

/-- What is wrong with a text that is no program: the terminator is missing; or else a NUL byte
stands before it, and the first one is named; or else up to some closing brace more braces close
than open, and the first such brace is named; or else the last opening brace without partner is. -/
inductive Rejected (source : List UInt8) : Fault → Prop where
  | missingTerminator (missing : Scan.terminator ∉ source) : Rejected source .missingTerminator
  | embeddedNul {offset : Nat} (terminated : Scan.terminator ∈ source)
      (first : IsLeast {k | source[k]? = some 0} offset) (before : Unended source offset) :
      Rejected source (.embeddedNul (.ofOffset source offset))
  | excess {offset : Nat} (terminated : Scan.terminator ∈ source) (nulFree : NulFree source)
      (first : IsLeast {k | Jumps.Excess (braceWord source) k} offset) :
      Rejected source (.unbalancedBraces .closing (.ofOffset source offset))
  | unclosed {offset : Nat} (terminated : Scan.terminator ∈ source) (nulFree : NulFree source)
      (none : ∀ k, ¬Jumps.Excess (braceWord source) k)
      (last : IsGreatest {k | Jumps.Unclosed (braceWord source) k} offset) :
      Rejected source (.unbalancedBraces .opening (.ofOffset source offset))

/-! ### The brace check -/

theorem length_braceWord (source : List UInt8) : (braceWord source).length = source.length := by
  simp [braceWord]

/-- The check of the code from an offset on. -/
private def balanceFrom (source : List UInt8) (opened : List Location) (offset : Nat) :
    Except Fault Unit :=
  balance opened
    (Scan.onward (.ofOffset source offset) (modeAt source offset) (source.drop offset)).items

private theorem drop_of_getElem? {α : Type} {list : List α} {index : Nat} {first : α}
    (h : list[index]? = some first) : list.drop index = first :: list.drop (index + 1) := by
  obtain ⟨hl, rfl⟩ := List.getElem?_eq_some_iff.mp h
  exact List.drop_eq_getElem_cons hl

/-- The check takes one place of the brace word after another. -/
private theorem balanceFrom_eq (opened : List Location) (h : offset < source.length) :
    balanceFrom source opened offset =
      match (braceWord source)[offset]?.join with
      | none => balanceFrom source opened (offset + 1)
      | some .opening => balanceFrom source (.ofOffset source offset :: opened) (offset + 1)
      | some .closing =>
        match opened with
        | [] => .error (.unbalancedBraces .closing (.ofOffset source offset))
        | _ :: outer => balanceFrom source outer (offset + 1) := by
  have hb := List.getElem?_eq_getElem h
  have hw : (braceWord source)[offset]?.join =
      if Visible source offset then Brace.ofByte? source[offset] else none := by
    simp [braceWord, hb]
  simp only [balanceFrom, drop_of_getElem? hb, Scan.onward, ← Scan.modeAt_succ hb,
    ← Location.ofOffset_succ hb, Scan.modeAt_succ_eq_code_iff h, hw]
  by_cases hv : Visible source offset
  · by_cases hn : source[offset] = newline
    · have hnone : Brace.ofByte? newline = none := by decide
      simp [hv, hn, hnone]
    · simp only [hv, hn, ne_eq, not_false_eq_true, and_self, ↓reduceIte]
      exact balance_cons opened _ _
  · simp [hv]

/-- The check of the braces and the filling of a jump table end alike: both come to their end, or
they blame the same place. -/
private def Alike (source : List UInt8) (verdict : Except Fault Unit)
    (filled : Except Nat Jumps.Table) : Prop :=
  verdict = .ok () ∧ (∃ table, filled = .ok table) ∨
    ∃ brace place, verdict = .error (.unbalancedBraces brace (.ofOffset source place)) ∧
      filled = .error place ∧ (braceWord source)[place]? = some (some brace)

/-- Both walks, begun at an offset with the same braces open, end alike. -/
private theorem alike_from {opened : List Nat} (hi : offset ≤ source.length)
    (ho : ∀ place ∈ opened, (braceWord source)[place]? = some (some .opening))
    (table : Jumps.Table) :
    Alike source (balanceFrom source (opened.map (Location.ofOffset source)) offset)
      (Jumps.fill offset opened table ((braceWord source).drop offset)) := by
  -- The induction is on the number of bytes left.
  induction hr : source.length - offset generalizing offset opened table with
  | zero =>
    have hs : source.drop offset = [] := List.drop_eq_nil_of_le (by omega)
    have hw : (braceWord source).drop offset = [] :=
      List.drop_eq_nil_of_le (by rw [length_braceWord]; omega)
    rw [balanceFrom, hs, hw]
    cases opened with
    | nil => exact .inl ⟨rfl, table, rfl⟩
    | cons first outer => exact .inr ⟨.opening, first, rfl, rfl, ho first List.mem_cons_self⟩
  | succ left ih =>
    have hl : offset < source.length := by omega
    have next {inner : List Nat} (hin : ∀ place ∈ inner,
        (braceWord source)[place]? = some (some .opening)) (table : Jumps.Table) :=
      ih (show offset + 1 ≤ source.length from hl) hin table (by omega)
    obtain ⟨entry, hw⟩ : ∃ entry, (braceWord source)[offset]? = some entry := by
      rw [← length_braceWord] at hl
      exact ⟨_, List.getElem?_eq_getElem hl⟩
    rw [balanceFrom_eq _ hl, drop_of_getElem? hw, hw, Option.join_some]
    rcases entry with _ | _ | _
    · rw [Jumps.fill_none]
      exact next ho table
    · rw [Jumps.fill_opening]
      have hin : ∀ place ∈ offset :: opened,
          (braceWord source)[place]? = some (some .opening) := by
        intro place hp
        rcases List.mem_cons.mp hp with rfl | hp
        · exact hw
        · exact ho place hp
      exact next hin table
    · cases opened with
      | nil => exact .inr ⟨.closing, offset, rfl, rfl, hw⟩
      | cons first outer =>
        apply next
        intro place hp
        exact ho place (List.mem_cons_of_mem first hp)

/-- The check of the braces of a text ends as the jump table of its brace word does. -/
private theorem alike_checkBraces (source : List UInt8) :
    Alike source (checkBraces source) (Jumps.table (braceWord source)) := by
  have ho : ∀ place ∈ ([] : List Nat), (braceWord source)[place]? = some (some .opening) := by
    simp
  exact alike_from (Nat.zero_le _) ho _

theorem checkBraces_eq_ok_iff (source : List UInt8) :
    checkBraces source = .ok () ↔ Jumps.Balanced (braceWord source) := by
  rw [← Jumps.exists_table_iff]
  rcases alike_checkBraces source with ⟨hc, ht⟩ | ⟨brace, place, hc, ht, -⟩
  · exact iff_of_true hc ht
  · simp [hc, ht]

theorem checkBraces_eq_error_iff {fault : Fault} :
    checkBraces source = .error fault ↔
      ∃ brace offset, fault = .unbalancedBraces brace (.ofOffset source offset) ∧
        Jumps.table (braceWord source) = .error offset ∧
        (braceWord source)[offset]? = some (some brace) := by
  rcases alike_checkBraces source with ⟨hc, jumps, ht⟩ | ⟨brace, offset, hc, ht, hw⟩
  · simp [hc, ht]
  · rw [hc, ht]
    constructor
    · intro h
      exact ⟨brace, offset, (Except.error.inj h).symm, rfl, hw⟩
    · rintro ⟨other, place, rfl, hp, ho⟩
      cases hp
      rw [hw] at ho
      cases ho
      rfl

/-! ### The terminator check -/

/-- The first NUL byte is found if it stands before the first terminator. -/
theorem findNul_eq_some_iff :
    (source.takeWhile (· != Scan.terminator)).findIdx? (· == 0) = some offset ↔
      IsLeast {k | source[k]? = some 0} offset ∧ Unended source offset := by
  rw [List.findIdx?_eq_some_iff_getElem]
  simp only [beq_iff_eq]
  constructor
  · rintro ⟨hl, hz, hbefore⟩
    obtain ⟨hnul, hu⟩ :=
      Scan.getElem?_takeWhile_eq_some_iff.mp (List.getElem?_eq_some_iff.mpr ⟨hl, hz⟩)
    refine ⟨⟨hnul, ?_⟩, hu⟩
    intro k hk
    apply Nat.le_of_not_lt
    intro hlt
    have hin := Scan.getElem?_takeWhile_eq_some_iff.mpr ⟨hk, hu.of_le (Nat.le_of_lt hlt)⟩
    exact hbefore k hlt (List.getElem?_eq_some_iff.mp hin).2
  · rintro ⟨⟨hnul, hleast⟩, hu⟩
    obtain ⟨hl, hz⟩ :=
      List.getElem?_eq_some_iff.mp (Scan.getElem?_takeWhile_eq_some_iff.mpr ⟨hnul, hu⟩)
    refine ⟨hl, hz, ?_⟩
    intro k hlt hk
    have hin := Scan.getElem?_takeWhile_eq_some_iff.mp (List.getElem?_eq_some_iff.mpr ⟨_, hk⟩)
    exact absurd (hleast hin.1) (Nat.not_le_of_lt hlt)

/-- No NUL byte is found if none stands before the first terminator. -/
theorem findNul_eq_none_iff :
    (source.takeWhile (· != Scan.terminator)).findIdx? (· == 0) = none ↔ NulFree source := by
  rw [List.findIdx?_eq_none_iff]
  constructor
  · intro h offset hu hz
    have hmem := List.mem_of_getElem? (Scan.getElem?_takeWhile_eq_some_iff.mpr ⟨hz, hu⟩)
    have := h 0 hmem
    simp at this
  · intro h b hb
    obtain ⟨offset, ho⟩ := List.mem_iff_getElem?.mp hb
    obtain ⟨hs, hu⟩ := Scan.getElem?_takeWhile_eq_some_iff.mp ho
    rw [beq_eq_false_iff_ne]
    rintro rfl
    exact h offset hu hs

theorem checkTerminator_eq_ok_iff :
    checkTerminator source = .ok () ↔ Scan.terminator ∈ source ∧ NulFree source := by
  rw [checkTerminator, ← findNul_eq_none_iff]
  by_cases ht : Scan.terminator ∈ source
  · cases hn : (source.takeWhile (· != Scan.terminator)).findIdx? (· == 0) with
    | none => simp [hasTerminator, ht]
    | some offset => simp [hasTerminator, ht]
  · simp [hasTerminator, ht]

theorem checkTerminator_eq_error_iff {fault : Fault} :
    checkTerminator source = .error fault ↔
      (Scan.terminator ∉ source ∧ fault = .missingTerminator) ∨
      Scan.terminator ∈ source ∧ ∃ offset, fault = .embeddedNul (.ofOffset source offset) ∧
        IsLeast {k | source[k]? = some 0} offset ∧ Unended source offset := by
  simp only [checkTerminator, ← findNul_eq_some_iff]
  by_cases ht : Scan.terminator ∈ source
  · cases hn : (source.takeWhile (· != Scan.terminator)).findIdx? (· == 0) with
    | none => simp [hasTerminator, ht]
    | some offset => simp [hasTerminator, ht, eq_comm]
  · simp [hasTerminator, ht, eq_comm]

/-! ### All checks -/

theorem validate_eq_ok_iff :
    validate source = .ok () ↔ checkTerminator source = .ok () ∧ checkBraces source = .ok () := by
  rw [validate]
  cases ht : checkTerminator source with
  | error fault => simp [bind, Except.bind]
  | ok _ => simp [bind, Except.bind]

theorem validate_eq_error_iff {fault : Fault} :
    validate source = .error fault ↔
      checkTerminator source = .error fault ∨
        checkTerminator source = .ok () ∧ checkBraces source = .error fault := by
  rw [validate]
  cases ht : checkTerminator source with
  | error other => simp [bind, Except.bind]
  | ok _ => simp [bind, Except.bind]

/-- Validation accepts exactly the grammatical texts, and reports of any other text exactly what is
wrong with it. -/
theorem validation_is_grammar (source : List UInt8) :
    (validate source = .ok () ↔ Grammatical source) ∧
      ∀ fault, validate source = .error fault ↔ Rejected source fault := by
  constructor
  · rw [validate_eq_ok_iff, checkTerminator_eq_ok_iff, checkBraces_eq_ok_iff]
    constructor
    · rintro ⟨⟨ht, hn⟩, hb⟩
      exact ⟨ht, hn, hb⟩
    · rintro ⟨ht, hn, hb⟩
      exact ⟨⟨ht, hn⟩, hb⟩
  · intro fault
    rw [validate_eq_error_iff, checkTerminator_eq_error_iff, checkTerminator_eq_ok_iff,
      checkBraces_eq_error_iff]
    constructor
    · rintro ((⟨ht, rfl⟩ | ⟨ht, offset, rfl, hf, hu⟩) | ⟨⟨ht, hn⟩, brace, offset, rfl, hj, hw⟩)
      · exact .missingTerminator ht
      · exact .embeddedNul ht hf hu
      · rcases Jumps.table_eq_error_iff.mp hj with he | ⟨hnone, hl⟩
        · obtain rfl : brace = .closing := by simpa [hw] using he.1.1
          exact .excess ht hn he
        · obtain rfl : brace = .opening := by simpa [hw] using hl.1.1
          exact .unclosed ht hn hnone hl
    · intro h
      cases h with
      | missingTerminator ht => exact .inl (.inl ⟨ht, rfl⟩)
      | embeddedNul ht hf hu => exact .inl (.inr ⟨ht, _, rfl, hf, hu⟩)
      | excess ht hn he =>
        have hj := Jumps.table_eq_error_iff.mpr (.inl he)
        exact .inr ⟨⟨ht, hn⟩, .closing, _, rfl, hj, he.1.1⟩
      | unclosed ht hn hnone hl =>
        have hj := Jumps.table_eq_error_iff.mpr (.inr ⟨hnone, hl⟩)
        exact .inr ⟨⟨ht, hn⟩, .opening, _, rfl, hj, hl.1.1⟩

end Validation

end ScrewLang
