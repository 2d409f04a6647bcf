import Mathlib.Order.Bounds.Basic
import ScrewLang.Proofs.Program.Nesting

/-!
# Braces without partner

A word without a jump table is blamed on one of its braces, and heights alone say on which. It is
the first closing brace at which the height falls below zero. If there is none, it is the last
opening brace whose height the rest of the word never comes back to.
-/

namespace ScrewLang

namespace Jumps

variable {word rest : List (Option Brace)} {index place : Nat} {opened : List Nat}

/-- A closing brace up to which, itself included, more braces close than open. -/
def Excess (word : List (Option Brace)) (place : Nat) : Prop :=
  word[place]? = some (some .closing) ∧ height word (place + 1) < 0

/-- An opening brace from which on, up to any later place, more braces open than close. -/
def Unclosed (word : List (Option Brace)) (place : Nat) : Prop :=
  word[place]? = some (some .opening) ∧
    ∀ later, place < later → later ≤ word.length → height word place < height word later

theorem height_zero (word : List (Option Brace)) : height word 0 = 0 := by
  simp [height]

/-- The first place of a word adds to all later heights what it adds alone. -/
theorem height_cons (first : Option Brace) (rest : List (Option Brace)) (place : Nat) :
    height (first :: rest) (place + 1) = height [first] 1 + height rest place := by
  simp only [height, List.take_succ_cons, List.count_cons, List.take_zero, List.count_nil]
  omega

private theorem height_none : height [none] 1 = 0 := rfl

private theorem height_opening : height [some .opening] 1 = 1 := rfl

private theorem height_closing : height [some .closing] 1 = -1 := rfl

/-- A bound on heights carries over to a word with one more place in front. -/
private theorem le_height_cons {first : Option Brace} {bound : Int} {count : Nat} (hz : bound ≤ 0)
    (h : 0 < count → bound ≤ height [first] 1 + height rest (count - 1)) :
    bound ≤ height (first :: rest) count := by
  cases count with
  | zero => rwa [height_zero]
  | succ count =>
    rw [height_cons]
    exact h (Nat.succ_pos count)

/-- Whether a brace is left unclosed does not depend on what comes before it. -/
theorem unclosed_cons_succ (first : Option Brace) :
    Unclosed (first :: rest) (place + 1) ↔ Unclosed rest place := by
  rw [Unclosed, Unclosed, List.getElem?_cons_succ]
  apply and_congr_right
  intro _
  constructor
  · intro h later hp hl
    have := h (later + 1) (by omega) (Nat.succ_le_succ hl)
    rw [height_cons first rest place, height_cons first rest later] at this
    omega
  · intro h later hp hl
    cases later with
    | zero => omega
    | succ later =>
      have := h later (by omega) (Nat.le_of_succ_le_succ hl)
      rw [height_cons first rest place, height_cons first rest later]
      omega

/-! ### The pass that fills a table -/

/-- What the pass blames from a place on, given the places of the braces still open there: a closing
brace for which none is left, the last brace that it leaves open, or one that was open before. -/
private inductive Blamed (index : Nat) (opened : List Nat) (rest : List (Option Brace)) :
    (place : Nat) → Prop where
  | closing (k : Nat) (brace : rest[k]? = some (some .closing))
      (below : height rest (k + 1) < -opened.length)
      (before : ∀ count ≤ k, -opened.length ≤ height rest count) :
      Blamed index opened rest (index + k)
  | inside (k : Nat) (unclosed : Unclosed rest k) (last : ∀ later, k < later → ¬Unclosed rest later)
      (above : ∀ count, -opened.length ≤ height rest count) :
      Blamed index opened rest (index + k)
  | outside {place : Nat} (closed : Nat) (entry : opened[closed]? = some place)
      (level : height rest rest.length = -closed) (above : ∀ count, -closed ≤ height rest count) :
      Blamed index opened rest place

/-- A place in front, which changes how many braces are open, does not change that a brace after it
is blamed. -/
private theorem Blamed.cons {first : Option Brace} {inner : List Nat}
    (hd : (inner.length : Int) = opened.length + height [first] 1)
    (ho : ∀ closed : Nat, inner[closed]? = some place → height rest rest.length = -closed →
      (∀ count, -closed ≤ height rest count) → Blamed index opened (first :: rest) place)
    (h : Blamed (index + 1) inner rest place) : Blamed index opened (first :: rest) place := by
  cases h with
  | closing k brace below before =>
    rw [Nat.add_right_comm, Nat.add_assoc]
    apply Blamed.closing (k + 1) brace
    · rw [height_cons]
      omega
    · intro count hc
      apply le_height_cons (by omega)
      intro hp
      have := before (count - 1) (by omega)
      omega
  | inside k unclosed last above =>
    rw [Nat.add_right_comm, Nat.add_assoc]
    apply Blamed.inside (k + 1) ((unclosed_cons_succ first).mpr unclosed)
    · intro later hl hu
      cases later with
      | zero => omega
      | succ later => exact last later (by omega) ((unclosed_cons_succ first).mp hu)
    · intro count
      apply le_height_cons (by omega)
      intro _
      have := above (count - 1)
      omega
  | outside closed entry level above => exact ho closed entry level above

/-- A brace that was open before is still blamed when a place in front is counted in. -/
private theorem Blamed.outside_cons {first : Option Brace} {closed passed : Nat}
    (hc : (closed : Int) = passed - height [first] 1) (entry : opened[closed]? = some place)
    (level : height rest rest.length = -passed) (above : ∀ count, -passed ≤ height rest count) :
    Blamed index opened (first :: rest) place := by
  apply Blamed.outside closed entry
  · rw [List.length_cons, height_cons]
    omega
  · intro count
    apply le_height_cons (by omega)
    intro _
    have := above (count - 1)
    omega

/-- An opening brace that nothing after it closes, while all else is closed, is the last one left
open. -/
private theorem Blamed.first (level : height rest rest.length = 0)
    (above : ∀ count, 0 ≤ height rest count) :
    Blamed index opened (some .opening :: rest) index := by
  apply Blamed.inside 0
  · refine ⟨rfl, ?_⟩
    intro later hp _
    cases later with
    | zero => omega
    | succ later =>
      have := above later
      rw [height_zero, height_cons, height_opening]
      omega
  · intro later hp hu
    cases later with
    | zero => omega
    | succ later =>
      obtain ⟨hb, ha⟩ := (unclosed_cons_succ _).mp hu
      have hl : later < rest.length := (List.getElem?_eq_some_iff.mp hb).1
      have := ha rest.length hl (Nat.le_refl _)
      have := above later
      omega
  · intro count
    apply le_height_cons (by omega)
    intro _
    have := above (count - 1)
    rw [height_opening]
    omega

/-- A pass that fails blames what heights tell it to. -/
private theorem blamed_of_fill {start : Table} (h : fill index opened start rest = .error place) :
    Blamed index opened rest place := by
  fun_induction fill index opened start rest with
  | case1 => cases h
  | case2 index place outer table =>
    cases h
    apply Blamed.outside 0 rfl
    · rfl
    · intro count
      simp [height]
  | case3 index opened table rest ih =>
    apply Blamed.cons ?_ ?_ (ih h)
    · rw [height_none]
      omega
    · intro closed entry level above
      exact .outside_cons (by rw [height_none]; omega) entry level above
  | case4 index opened table rest ih =>
    apply Blamed.cons ?_ ?_ (ih h)
    · rw [height_opening, List.length_cons]
      omega
    · intro closed entry level above
      cases closed with
      | zero =>
        cases entry
        exact .first level (by simpa using above)
      | succ closed =>
        rw [List.getElem?_cons_succ] at entry
        exact .outside_cons (by rw [height_opening]; omega) entry level above
  | case5 index table rest =>
    cases h
    apply Blamed.closing 0 rfl
    · rw [height_cons, height_closing, height_zero]
      decide
    · intro count hc
      obtain rfl : count = 0 := by omega
      simp [height]
  | case6 index first outer table rest ih =>
    apply Blamed.cons ?_ ?_ (ih h)
    · rw [height_closing, List.length_cons]
      omega
    · intro closed entry level above
      rw [← List.getElem?_cons_succ (a := first)] at entry
      exact .outside_cons (by rw [height_closing]; omega) entry level above

/-- A pass that comes to its end closes the braces open before it and no more than that. -/
private theorem heights_of_fill {start result : Table}
    (h : fill index opened start rest = .ok result) :
    height rest rest.length = -opened.length ∧ ∀ count, -opened.length ≤ height rest count := by
  have step {first : Option Brace} {rest : List (Option Brace)} {opened inner : List Nat}
      (hd : (inner.length : Int) = opened.length + height [first] 1)
      (h : height rest rest.length = -inner.length ∧
        ∀ count, -inner.length ≤ height rest count) :
      height (first :: rest) (first :: rest).length = -opened.length ∧
        ∀ count, -opened.length ≤ height (first :: rest) count := by
    constructor
    · rw [List.length_cons, height_cons, h.1]
      omega
    · intro count
      apply le_height_cons (by omega)
      intro _
      have := h.2 (count - 1)
      omega
  fun_induction fill index opened start rest with
  | case1 => simp [height]
  | case2 => cases h
  | case3 index opened table rest ih =>
    apply step ?_ (ih h)
    rw [height_none]
    omega
  | case4 index opened table rest ih =>
    apply step ?_ (ih h)
    rw [height_opening, List.length_cons]
    omega
  | case5 => cases h
  | case6 index first outer table rest ih =>
    apply step ?_ (ih h)
    rw [height_closing, List.length_cons]
    omega

/-! ### The place that a failed table names -/

/-- A word with a jump table has no brace without partner. -/
theorem not_excess_and_not_unclosed {jumps : Table} (h : table word = .ok jumps) (place : Nat) :
    ¬Excess word place ∧ ¬Unclosed word place := by
  obtain ⟨hlevel, habove⟩ := heights_of_fill h
  constructor
  · rintro ⟨-, hbelow⟩
    have := habove (place + 1)
    simp only [List.length_nil] at this
    omega
  · rintro ⟨hb, hlater⟩
    have hl : place < word.length := (List.getElem?_eq_some_iff.mp hb).1
    have := hlater word.length hl (Nat.le_refl _)
    have := habove place
    omega

/-- A word without a jump table is blamed on its first closing brace in excess, or else on its last
opening brace left unclosed. -/
theorem unmatched_of_table (h : table word = .error place) :
    IsLeast {p | Excess word p} place ∨
      (∀ p, ¬Excess word p) ∧ IsGreatest {p | Unclosed word p} place := by
  cases blamed_of_fill h with
  | closing k brace below before =>
    left
    rw [Nat.zero_add]
    refine ⟨⟨brace, by simpa using below⟩, ?_⟩
    rintro other ⟨-, hother⟩
    apply Nat.le_of_not_lt
    intro hlt
    have := before (other + 1) hlt
    simp only [List.length_nil] at this
    omega
  | inside k unclosed last above =>
    right
    rw [Nat.zero_add]
    refine ⟨?_, unclosed, ?_⟩
    · rintro other ⟨-, hother⟩
      have := above (other + 1)
      simp only [List.length_nil] at this
      omega
    · intro other hother
      apply Nat.le_of_not_lt
      intro hlt
      exact last other hlt hother
  | outside closed entry => cases entry

/-- Heights alone tell which brace a word without a jump table is blamed on. -/
theorem table_eq_error_iff :
    table word = .error place ↔
      IsLeast {p | Excess word p} place ∨
        (∀ p, ¬Excess word p) ∧ IsGreatest {p | Unclosed word p} place := by
  constructor
  · exact unmatched_of_table
  · intro h
    cases ht : table word with
    | ok jumps =>
      obtain ⟨hexcess, hunclosed⟩ := not_excess_and_not_unclosed ht place
      rcases h with h | ⟨-, h⟩
      · exact absurd h.1 hexcess
      · exact absurd h.1 hunclosed
    | error other =>
      congr 1
      rcases unmatched_of_table ht with ho | ⟨hno, ho⟩ <;> rcases h with h | ⟨hn, h⟩
      · exact ho.unique h
      · exact absurd ho.1 (hn other)
      · exact absurd h.1 (hno place)
      · exact ho.unique h

end Jumps

end ScrewLang
