import ScrewLang.Proofs.Program.Balance
import ScrewLang.Proofs.Program.Nesting

/-!
# Jump tables and searches

The partner of a brace can also be found by a search that counts how deep it is: forwards from an
opening brace, backwards from a closing one. A jump table holds for every place just what this
search would find there.
-/

namespace ScrewLang

namespace Jumps

/-- What a place adds to the depth of a search: one for a `deeper` brace, less one for the other. -/
def gain (deeper : Brace) : Option Brace → Int
  | none => 0
  | some brace => if brace = deeper then 1 else -1

/-- Search along a word, from some depth on, for the first place at which the depth comes to zero.
-/
def search (deeper : Brace) : (depth : Int) → List (Option Brace) → Option Nat
  | _, [] => none
  | depth, place? :: rest =>
    if depth + gain deeper place? = 0 then some 0
    else (search deeper (depth + gain deeper place?) rest).map (· + 1)

/-- The partner of a brace, found by a search from it that begins at depth one. -/
def rescan (word : List (Option Brace)) (place : Nat) : Option Nat :=
  match word[place]? with
  | some (some .opening) => (search .opening 1 (word.drop (place + 1))).map (place + 1 + ·)
  | some (some .closing) => (search .closing 1 (word.take place).reverse).map (place - 1 - ·)
  | _ => none

variable {word : List (Option Brace)}

/-- The depth that a search has gained after some places. -/
private def gained (deeper : Brace) (word : List (Option Brace)) (count : Nat) : Int :=
  match deeper with
  | .opening => height word count
  | .closing => -height word count

private theorem gained_zero (deeper : Brace) (word : List (Option Brace)) :
    gained deeper word 0 = 0 := by
  cases deeper <;> simp [gained, height]

private theorem gained_nil (deeper : Brace) (count : Nat) : gained deeper [] count = 0 := by
  cases deeper <;> simp [gained, height]

private theorem gained_cons (deeper : Brace) (place? : Option Brace) (rest : List (Option Brace))
    (count : Nat) :
    gained deeper (place? :: rest) (count + 1) = gain deeper place? + gained deeper rest count := by
  rcases place? with _ | brace
  · cases deeper <;> simp [gained, height, gain]
  · cases deeper <;> cases brace <;> simp [gained, height, gain] <;> omega

/-- A search finds the place after which its depth is zero for the first time. -/
private theorem search_eq_some_iff {deeper : Brace} {depth : Int} {found : Nat} (hd : 0 < depth) :
    search deeper depth word = some found ↔
      depth + gained deeper word (found + 1) = 0 ∧
        ∀ count ≤ found, 0 < depth + gained deeper word count := by
  induction word generalizing depth found with
  | nil =>
    simp only [search, gained_nil, reduceCtorEq, false_iff, not_and]
    omega
  | cons place? rest ih =>
    have hgain : -1 ≤ gain deeper place? := by
      rcases place? with _ | brace
      · simp [gain]
      · simp only [gain]
        split <;> omega
    rw [search]
    by_cases hz : depth + gain deeper place? = 0
    · rw [if_pos hz]
      cases found with
      | zero => simp [gained_cons, gained_zero, hz, hd]
      | succ found =>
        simp only [Option.some.injEq, Nat.zero_ne_add_one, false_iff, not_and]
        intro _ h
        have := h 1 (by omega)
        rw [gained_cons, gained_zero] at this
        omega
    · rw [if_neg hz]
      have hpos : 0 < depth + gain deeper place? := by omega
      cases found with
      | zero => simp [gained_cons, gained_zero, hz]
      | succ found =>
        have hmap : (search deeper (depth + gain deeper place?) rest).map (· + 1) =
            some (found + 1) ↔ search deeper (depth + gain deeper place?) rest = some found := by
          simp [Option.map_eq_some_iff]
        rw [hmap, ih hpos, gained_cons, ← Int.add_assoc]
        refine and_congr_right fun _ => ⟨fun h count hc => ?_, fun h count hc => ?_⟩
        · cases count with
          | zero =>
            rw [gained_zero]
            omega
          | succ count =>
            rw [gained_cons, ← Int.add_assoc]
            exact h count (by omega)
        · have := h (count + 1) (by omega)
          rwa [gained_cons, ← Int.add_assoc] at this

private theorem height_drop (word : List (Option Brace)) (start count : Nat) :
    height (word.drop start) count = height word (start + count) - height word start := by
  simp only [height, List.take_add, List.count_append]
  omega

private theorem height_reverse_take {start : Nat} (hs : start ≤ word.length) (count : Nat) :
    height (word.take start).reverse count = height word start - height word (start - count) := by
  have hsplit : word.take start =
      word.take (start - count) ++ (word.take start).drop (start - count) := by
    have := List.take_append_drop (start - count) (word.take start)
    rw [List.take_take, Nat.min_eq_left (Nat.sub_le start count)] at this
    exact this.symm
  have htake : (word.take start).reverse.take count =
      ((word.take start).drop (start - count)).reverse := by
    rw [List.take_reverse, List.length_take, Nat.min_eq_left hs]
  have hcount (brace : Option Brace) : (word.take start).count brace =
      (word.take (start - count)).count brace +
        ((word.take start).drop (start - count)).count brace := by
    rw [← List.count_append, ← hsplit]
  rw [height, htake, List.count_reverse, List.count_reverse, height, height, hcount, hcount]
  omega

private theorem search_forwards_iff {place found : Nat}
    (hw : word[place]? = some (some .opening)) :
    search .opening 1 (word.drop (place + 1)) = some found ↔
      Paired word place (place + 1 + found) := by
  have hup := height_succ_opening hw
  rw [search_eq_some_iff Int.one_pos]
  simp only [gained, height_drop]
  constructor
  · rintro ⟨hlevel, habove⟩
    refine ⟨by omega, ?_, ?_⟩
    · rw [show place + 1 + found + 1 = place + 1 + (found + 1) by omega]
      omega
    · intro later hl hle
      obtain ⟨count, rfl⟩ := Nat.exists_eq_add_of_lt hl
      have := habove count (by omega)
      rw [show place + 1 + count = place + count + 1 by omega] at this
      omega
  · intro h
    have := h.level
    refine ⟨?_, fun count hc => ?_⟩
    · rw [show place + 1 + (found + 1) = place + 1 + found + 1 by omega]
      omega
    · have := h.above (place + 1 + count) (by omega) (by omega)
      omega

private theorem search_backwards_iff {place found : Nat}
    (hw : word[place]? = some (some .closing)) :
    search .closing 1 (word.take place).reverse = some found ↔
      found < place ∧ Paired word (place - 1 - found) place := by
  have hdown := height_succ_closing hw
  have hlt : place < word.length := (List.getElem?_eq_some_iff.mp hw).1
  rw [search_eq_some_iff Int.one_pos]
  simp only [gained, height_reverse_take (Nat.le_of_lt hlt)]
  have hsub : place - 1 - found = place - (found + 1) := by omega
  rw [hsub]
  constructor
  · rintro ⟨hlevel, habove⟩
    have hf : found < place := by
      apply Nat.lt_of_not_le
      intro hle
      have := habove found (Nat.le_refl found)
      rw [show place - found = place - (found + 1) by omega] at this
      omega
    refine ⟨hf, by omega, by omega, ?_⟩
    intro later hl hle
    have := habove (place - later) (by omega)
    rw [Nat.sub_sub_self hle] at this
    omega
  · rintro ⟨hf, h⟩
    have := h.level
    refine ⟨by omega, fun count hc => ?_⟩
    have := h.above (place - count) (by omega) (by omega)
    omega

/-- A search finds the brace that belongs together with the one that it begins at. -/
theorem rescan_eq_some_iff {i j : Nat} :
    rescan word i = some j ↔ Paired word i j ∨ Paired word j i := by
  rw [rescan]
  split
  · next hw =>
    rw [Option.map_eq_some_iff]
    constructor
    · rintro ⟨found, hf, rfl⟩
      exact .inl ((search_forwards_iff hw).mp hf)
    · rintro (h | h)
      · obtain ⟨found, rfl⟩ := Nat.exists_eq_add_of_le h.lt
        exact ⟨found, (search_forwards_iff hw).mpr h, rfl⟩
      · rw [h.closing] at hw
        cases hw
  · next hw =>
    rw [Option.map_eq_some_iff]
    constructor
    · rintro ⟨found, hf, rfl⟩
      exact .inr ((search_backwards_iff hw).mp hf).2
    · rintro (h | h)
      · rw [h.opening] at hw
        cases hw
      · have hlt := h.lt
        have hj : i - 1 - (i - 1 - j) = j := by omega
        exact ⟨i - 1 - j, (search_backwards_iff hw).mpr ⟨by omega, by rwa [hj]⟩, hj⟩
  · next ho hc =>
    constructor
    · intro h
      cases h
    · rintro (h | h)
      · exact absurd h.opening ho
      · exact absurd h.closing hc

/-- A word has a jump table exactly when it is balanced. The table then holds for every place what a
search from there would find: nothing unless a brace stands there, the first place after an opening
brace at which the depth comes back to zero, and likewise backwards from a closing brace. So the
jumps lead from the two braces of a loop to each other, an opening brace has its partner to the
right, and two loops are disjoint or nested. Bytes, symbols or items make a word alike: nothing but
their braces counts. -/
theorem table_holds_rescans (word : List (Option Brace)) :
    ((∃ jumps, table word = .ok jumps) ↔ Balanced word) ∧
    ∀ jumps, table word = .ok jumps →
      jumps.size = word.length ∧
      (∀ i, jumps.getD i none = rescan word i) ∧
      (∀ i, jumps.getD i none = none ↔ ∀ brace, word[i]? ≠ some (some brace)) ∧
      (∀ i j, jumps.getD i none = some j → jumps.getD j none = some i) ∧
      (∀ i j, word[i]? = some (some .opening) → jumps.getD i none = some j →
        i < j ∧ word[j]? = some (some .closing)) ∧
      ∀ i j k l, i < j → k < l → i ≠ k → jumps.getD i none = some j → jumps.getD k none = some l →
        j < k ∨ l < i ∨ (i < k ∧ l < j) ∨ (k < i ∧ j < l) := by
  refine ⟨exists_table_iff, fun jumps h => ⟨?_, ?_, ?_, ?_, ?_, ?_⟩⟩
  · rw [size_fill h, Array.size_replicate]
  · intro i
    apply Option.ext
    intro j
    rw [getD_table_eq_some_iff h, rescan_eq_some_iff]
  · intro i
    exact getD_table_eq_none_iff h
  · intro i j hij
    rw [getD_table_eq_some_iff h] at hij ⊢
    exact hij.symm
  · intro i j hw hij
    rcases (getD_table_eq_some_iff h).mp hij with hp | hp
    · exact ⟨hp.lt, hp.closing⟩
    · rw [hp.closing] at hw
      cases hw
  · intro i j k l hij hkl hne hi hk
    have hforward : ∀ {m n}, m < n → jumps.getD m none = some n → Paired word m n := by
      intro m n hmn hj
      refine ((getD_table_eq_some_iff h).mp hj).resolve_right fun hp => ?_
      have := hp.lt
      omega
    exact (hforward hij hi).disjoint_or_nested (hforward hkl hk) hne

/-- The table of a word with a loop inside another and a third one behind holds what searches find.
-/
theorem table_holds_rescans_three_loops :
    let word : List (Option Brace) := [some .opening, none, some .opening, some .closing,
      some .closing, none, some .opening, some .closing]
    let jumps : Table := #[some 4, none, some 3, some 2, some 0, none, some 7, some 6]
    Balanced word ∧ table word = .ok jumps ∧
      (∀ i, jumps.getD i none = rescan word i) ∧
      (0 < 4 ∧ word[4]? = some (some .closing)) ∧ jumps.getD 4 none = some 0 ∧
      (4 < 2 ∨ 3 < 0 ∨ (0 < 2 ∧ 3 < 4) ∨ (2 < 0 ∧ 4 < 3)) := by
  intro word jumps
  have hj : table word = .ok jumps := by cbv
  obtain ⟨hiff, hall⟩ := table_holds_rescans word
  obtain ⟨-, hscan, -, hback, hright, hnest⟩ := hall jumps hj
  exact ⟨hiff.mp ⟨jumps, hj⟩, hj, hscan, hright 0 4 rfl rfl, hback 0 4 rfl,
    hnest 0 4 2 3 (by decide) (by decide) (by decide) rfl rfl⟩

end Jumps

end ScrewLang
