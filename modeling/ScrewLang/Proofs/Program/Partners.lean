import ScrewLang.Program.Basic

/-!
# What a jump table holds

The pass that fills a jump table writes only at the braces still open and at those it has yet to
come to. So a finished table keeps what was written before, gives every brace a partner, and names
only places of the word. The last statements say this of the table of a program.
-/

namespace ScrewLang

/-- Only a brace reads as one. -/
theorem Symbol.eq_of_brace? {symbol : Symbol} {brace : Brace} (h : symbol.brace? = some brace) :
    symbol = .brace brace := by
  cases symbol with
  | brace other =>
    cases h
    rfl
  | _ => cases h

namespace Jumps

variable {index : Nat} {opened : List Nat} {start result : Table} {word : List (Option Brace)}

theorem size_link (table : Table) (first second : Nat) :
    (link table first second).size = table.size := by
  simp [link]

/-- Linking two places writes nowhere else. -/
theorem getElem?_link_of_ne (table : Table) {first second i : Nat} (h₁ : i ≠ first)
    (h₂ : i ≠ second) : (link table first second)[i]? = table[i]? := by
  rw [link, Array.getElem?_setIfInBounds_ne (Ne.symm h₂),
    Array.getElem?_setIfInBounds_ne (Ne.symm h₁)]

/-- The second of two linked places leads to the first. -/
theorem getElem?_link_second (table : Table) {first second : Nat} (h : second < table.size) :
    (link table first second)[second]? = some (some first) := by
  rw [link, Array.getElem?_setIfInBounds_self_of_lt (by simpa using h)]

/-- The first of two linked places leads to the second. -/
theorem getElem?_link_first (table : Table) {first second : Nat} (h : first < table.size)
    (hne : first ≠ second) : (link table first second)[first]? = some (some second) := by
  rw [link, Array.getElem?_setIfInBounds_ne (Ne.symm hne),
    Array.getElem?_setIfInBounds_self_of_lt h]

/-- An entry after linking two places is one of the two links, or was there before. -/
theorem eq_of_getElem?_link {table : Table} {first second i j : Nat}
    (h : (link table first second)[i]? = some (some j)) :
    i = first ∧ j = second ∨ i = second ∧ j = first ∨ table[i]? = some (some j) := by
  by_cases hi : i = second
  · subst hi
    rw [link, Array.getElem?_setIfInBounds_self] at h
    split at h
    · cases h
      exact .inr (.inl ⟨rfl, rfl⟩)
    · cases h
  · by_cases hf : i = first
    · subst hf
      rw [link, Array.getElem?_setIfInBounds_ne (Ne.symm hi), Array.getElem?_setIfInBounds_self] at h
      split at h
      · cases h
        exact .inl ⟨rfl, rfl⟩
      · cases h
    · rw [getElem?_link_of_ne table hf hi] at h
      exact .inr (.inr h)

/-- A place without a brace is passed over. -/
theorem fill_none (index : Nat) (opened : List Nat) (table : Table) (rest : List (Option Brace)) :
    fill index opened table (none :: rest) = fill (index + 1) opened table rest := by
  cases opened <;> rfl

/-- Places without braces are passed over. -/
theorem fill_append {word : List (Option Brace)} (h : ∀ place? ∈ word, place? = none)
    (index : Nat) (opened : List Nat) (table : Table) (rest : List (Option Brace)) :
    fill index opened table (word ++ rest) = fill (index + word.length) opened table rest := by
  induction word generalizing index with
  | nil => rfl
  | cons first word ih =>
    obtain rfl := h first List.mem_cons_self
    rw [List.cons_append, fill_none, ih (fun p hp => h p (List.mem_cons_of_mem none hp)),
      List.length_cons]
    congr 1
    omega

/-- An opening brace is open until its partner comes. -/
theorem fill_opening (index : Nat) (opened : List Nat) (table : Table)
    (rest : List (Option Brace)) :
    fill index opened table (some .opening :: rest) =
      fill (index + 1) (index :: opened) table rest := by
  cases opened <;> rfl

/-- A place before the rest of the word keeps its entry unless its brace is still open. -/
theorem getElem?_fill {i : Nat} (h : fill index opened start word = .ok result) (hi : i < index)
    (hn : i ∉ opened) : result[i]? = start[i]? := by
  fun_induction fill index opened start word with
  | case1 =>
    cases h
    rfl
  | case2 => cases h
  | case3 index opened table rest ih => exact ih h (by omega) hn
  | case4 index opened table rest ih =>
    refine ih h (by omega) ?_
    rw [List.mem_cons, not_or]
    exact ⟨by omega, hn⟩
  | case5 => cases h
  | case6 index place outer table rest ih =>
    rw [List.mem_cons, not_or] at hn
    rw [ih h (by omega) hn.2, getElem?_link_of_ne table hn.1 (by omega)]

/-- Every entry of a finished table is a place below a bound that the word and the table it began
with respect. -/
theorem entry_fill_lt {bound : Nat} (h : fill index opened start word = .ok result)
    (hw : index + word.length ≤ bound) (ho : ∀ place ∈ opened, place < bound)
    (hs : ∀ i j : Nat, start[i]? = some (some j) → j < bound) :
    ∀ i j : Nat, result[i]? = some (some j) → j < bound := by
  fun_induction fill index opened start word with
  | case1 =>
    cases h
    exact hs
  | case2 => cases h
  | case3 index opened table rest ih =>
    rw [List.length_cons] at hw
    exact ih h (by omega) ho hs
  | case4 index opened table rest ih =>
    rw [List.length_cons] at hw
    refine ih h (by omega) ?_ hs
    intro place hp
    rcases List.mem_cons.mp hp with rfl | hp
    · omega
    · exact ho place hp
  | case5 => cases h
  | case6 index place outer table rest ih =>
    rw [List.length_cons] at hw
    refine ih h (by omega) (fun p hp => ho p (List.mem_cons_of_mem place hp)) ?_
    intro i j hij
    rcases eq_of_getElem?_link hij with ⟨-, rfl⟩ | ⟨-, rfl⟩ | hij
    · omega
    · exact ho _ List.mem_cons_self
    · exact hs i j hij

/-- A place with a partner keeps one, and so does a place whose brace is still open; every brace of
the word gets one. -/
theorem exists_entry_fill {i : Nat} (h : fill index opened start word = .ok result)
    (hw : index + word.length ≤ start.size) (ho : ∀ place ∈ opened, place < index)
    (hi : (∃ j, start[i]? = some (some j)) ∨ i ∈ opened ∨
      ∃ k brace, i = index + k ∧ word[k]? = some (some brace)) :
    ∃ j, result[i]? = some (some j) := by
  fun_induction fill index opened start word with
  | case1 =>
    cases h
    rcases hi with hi | hi | ⟨k, brace, -, hk⟩
    · exact hi
    · cases hi
    · cases hk
  | case2 => cases h
  | case3 index opened table rest ih =>
    rw [List.length_cons] at hw
    refine ih h (by omega) (fun p hp => Nat.lt_succ_of_lt (ho p hp)) ?_
    rcases hi with hi | hi | ⟨k, brace, rfl, hk⟩
    · exact .inl hi
    · exact .inr (.inl hi)
    · cases k with
      | zero => cases hk
      | succ k => exact .inr (.inr ⟨k, brace, by omega, hk⟩)
  | case4 index opened table rest ih =>
    rw [List.length_cons] at hw
    refine ih h (by omega) ?_ ?_
    · intro p hp
      rcases List.mem_cons.mp hp with rfl | hp
      · omega
      · exact Nat.lt_succ_of_lt (ho p hp)
    · rcases hi with hi | hi | ⟨k, brace, rfl, hk⟩
      · exact .inl hi
      · exact .inr (.inl (List.mem_cons_of_mem index hi))
      · cases k with
        | zero => exact .inr (.inl List.mem_cons_self)
        | succ k => exact .inr (.inr ⟨k, brace, by omega, hk⟩)
  | case5 => cases h
  | case6 index place outer table rest ih =>
    rw [List.length_cons] at hw
    have hp : place < index := ho place List.mem_cons_self
    have first : (link table place index)[place]? = some (some index) :=
      getElem?_link_first table (by omega) (by omega)
    have second : (link table place index)[index]? = some (some place) :=
      getElem?_link_second table (by omega)
    refine ih h (by rw [size_link]; omega)
      (fun p hp => Nat.lt_succ_of_lt (ho p (List.mem_cons_of_mem place hp))) ?_
    by_cases he : i = index
    · subst he
      exact .inl ⟨_, second⟩
    · by_cases hf : i = place
      · subst hf
        exact .inl ⟨_, first⟩
      · rw [getElem?_link_of_ne table hf he]
        rcases hi with hi | hi | ⟨k, brace, rfl, hk⟩
        · exact .inl hi
        · exact .inr (.inl ((List.mem_cons.mp hi).resolve_left hf))
        · cases k with
          | zero => exact absurd rfl he
          | succ k => exact .inr (.inr ⟨k, brace, by omega, hk⟩)

end Jumps

namespace Program

variable {program : Program} {jumps : Jumps.Table}

/-- A jump leads to a place of the program. -/
theorem jump_lt (h : program.jumps = .ok jumps) {place partner : Nat}
    (hj : jumps.getD place none = some partner) : partner < program.size := by
  rw [Program.jumps, Jumps.table] at h
  rw [Array.getD_eq_getD_getElem?] at hj
  cases he : jumps[place]? with
  | none => simp [he] at hj
  | some entry =>
    rw [he, Option.getD_some] at hj
    subst hj
    refine Jumps.entry_fill_lt h (Nat.le_of_eq ?_) (by simp) ?_ place partner he
    · rw [List.length_map, Array.length_toList, size, Nat.zero_add]
    · intro i j hij
      rw [Array.getElem?_replicate] at hij
      split at hij <;> cases hij

/-- Every brace of a program with a jump table has a partner. -/
theorem exists_partner (h : program.jumps = .ok jumps) {place : Nat} {brace : Brace}
    (hs : program.symbols[place]? = some (.brace brace)) :
    ∃ partner, jumps.getD place none = some partner := by
  rw [Program.jumps, Jumps.table] at h
  have hw : (program.symbols.toList.map Symbol.brace?)[place]? = some (some brace) := by
    rw [List.getElem?_map, Array.getElem?_toList, hs]
    rfl
  obtain ⟨partner, hp⟩ := Jumps.exists_entry_fill (i := place) h (by simp) (by simp)
    (.inr (.inr ⟨place, brace, (Nat.zero_add place).symm, hw⟩))
  exact ⟨partner, by rw [Array.getD_eq_getD_getElem?, hp, Option.getD_some]⟩

end Program

end ScrewLang
