import ScrewLang.Proofs.Program.Partners

/-!
# Heights and partners

The height of a word at a place is the number of opening braces before it less the number of closing
ones. A loop rises above the height at which it begins and comes back to it at its end, so heights
alone say which braces belong together, and they show that loops are disjoint or nested. A jump
table links exactly the braces that belong together.
-/

namespace ScrewLang

namespace Jumps

variable {word : List (Option Brace)}

/-- How many more opening than closing braces stand before a place. -/
def height (word : List (Option Brace)) (place : Nat) : Int :=
  (word.take place).count (some .opening) - (word.take place).count (some .closing)

/-- What a place adds to the height. -/
private def weight : Option (Option Brace) → Int
  | some (some .opening) => 1
  | some (some .closing) => -1
  | _ => 0

private theorem weight_pos_iff {place? : Option (Option Brace)} :
    0 < weight place? ↔ place? = some (some .opening) := by
  rcases place? with _ | _ | _ | _ <;> simp [weight]

private theorem weight_neg_iff {place? : Option (Option Brace)} :
    weight place? < 0 ↔ place? = some (some .closing) := by
  rcases place? with _ | _ | _ | _ <;> simp [weight]

private theorem height_succ (word : List (Option Brace)) (place : Nat) :
    height word (place + 1) = height word place + weight word[place]? := by
  rw [height, height, List.take_add_one]
  rcases word[place]? with _ | _ | _ | _
  · simp [weight]
  · simp [weight]
  · simp [weight]
    omega
  · simp [weight]
    omega

theorem height_succ_opening {place : Nat} (h : word[place]? = some (some .opening)) :
    height word (place + 1) = height word place + 1 := by
  rw [height_succ, h, weight]

theorem height_succ_closing {place : Nat} (h : word[place]? = some (some .closing)) :
    height word (place + 1) = height word place - 1 := by
  rw [height_succ, h, weight]
  omega

theorem height_succ_other {place : Nat} (h : word[place]? = some none) :
    height word (place + 1) = height word place := by
  simp [height_succ, h, weight]

/-- Where the height rises, a brace opens. -/
theorem opening_of_height_lt {place : Nat} (h : height word place < height word (place + 1)) :
    word[place]? = some (some .opening) := by
  rw [height_succ] at h
  exact weight_pos_iff.mp (by omega)

/-- Where the height falls, a brace closes. -/
theorem closing_of_height_lt {place : Nat} (h : height word (place + 1) < height word place) :
    word[place]? = some (some .closing) := by
  rw [height_succ] at h
  exact weight_neg_iff.mp (by omega)

/-- Two braces belong together: the word comes back at the second to the height it has at the first,
and is above that height in between. -/
structure Paired (word : List (Option Brace)) (first second : Nat) : Prop where
  lt : first < second
  level : height word (second + 1) = height word first
  above : ∀ place, first < place → place ≤ second → height word first < height word place

namespace Paired

variable {first second other : Nat}

theorem opening (h : Paired word first second) : word[first]? = some (some .opening) :=
  opening_of_height_lt (h.above (first + 1) (Nat.lt_succ_self first) h.lt)

theorem closing (h : Paired word first second) : word[second]? = some (some .closing) := by
  apply closing_of_height_lt
  rw [h.level]
  exact h.above second h.lt (Nat.le_refl second)

/-- An opening brace has one partner. -/
theorem second_unique (h : Paired word first second) (ho : Paired word first other) :
    second = other := by
  rcases Nat.lt_trichotomy second other with hlt | heq | hgt
  · have := ho.above (second + 1) (Nat.lt_succ_of_lt h.lt) hlt
    have := h.level
    omega
  · exact heq
  · have := h.above (other + 1) (Nat.lt_succ_of_lt ho.lt) hgt
    have := ho.level
    omega

/-- A closing brace has one partner. -/
theorem first_unique (h : Paired word first second) (ho : Paired word other second) :
    first = other := by
  have hl : height word first = height word other := h.level.symm.trans ho.level
  rcases Nat.lt_trichotomy first other with hlt | heq | hgt
  · have := h.above other hlt (Nat.le_of_lt ho.lt)
    omega
  · exact heq
  · have := ho.above first hgt (Nat.le_of_lt h.lt)
    omega

/-- A loop that begins inside another ends inside it. -/
theorem nested {inner last : Nat} (h : Paired word first second) (hi : Paired word inner last)
    (hf : first < inner) (hs : inner < second) : last < second := by
  have hrise := h.above inner hf (Nat.le_of_lt hs)
  apply Nat.lt_of_not_le
  intro hle
  rcases Nat.eq_or_lt_of_le hle with heq | hlt
  · have := h.level
    have := hi.level
    rw [← heq] at this
    omega
  · have := hi.above (second + 1) (Nat.lt_succ_of_lt hs) hlt
    have := h.level
    omega

/-- Of two loops, one lies inside the other or they are apart. -/
theorem disjoint_or_nested {first second third fourth : Nat}
    (h : Paired word first second) (ho : Paired word third fourth) (hne : first ≠ third) :
    second < third ∨ fourth < first ∨ (first < third ∧ fourth < second) ∨
      (third < first ∧ second < fourth) := by
  rcases Nat.lt_or_gt_of_ne hne with hlt | hgt
  · rcases Nat.lt_trichotomy third second with hin | heq | hout
    · exact .inr (.inr (.inl ⟨hlt, h.nested ho hlt hin⟩))
    · have hc := h.closing
      rw [← heq, ho.opening] at hc
      cases hc
    · exact .inl hout
  · rcases Nat.lt_trichotomy first fourth with hin | heq | hout
    · exact .inr (.inr (.inr ⟨hgt, ho.nested h hgt hin⟩))
    · have hc := ho.closing
      rw [← heq, h.opening] at hc
      cases hc
    · exact .inr (.inl hout)

end Paired

/-- A brace is still open at a place: the word has stayed above the height at which it stands, by
now by one for itself and one for each of the `inner` braces opened inside it. -/
private structure Pending (word : List (Option Brace)) (index inner place : Nat) : Prop where
  lt : place < index
  level : height word index = height word place + inner + 1
  above : ∀ later, place < later → later ≤ index → height word place < height word later

private theorem Pending.succ {index inner inner' place : Nat} (h : Pending word index inner place)
    (hl : height word (index + 1) = height word place + inner' + 1) :
    Pending word (index + 1) inner' place where
  lt := Nat.lt_succ_of_lt h.lt
  level := hl
  above := by
    intro later hp hle
    rcases Nat.eq_or_lt_of_le hle with rfl | hlt
    · omega
    · exact h.above later hp (Nat.le_of_lt_succ hlt)

private theorem pending_opening {index : Nat} (h : word[index]? = some (some .opening)) :
    Pending word (index + 1) 0 index where
  lt := Nat.lt_succ_self index
  level := by
    rw [height_succ_opening h]
    omega
  above := by
    intro later hp hle
    obtain rfl : later = index + 1 := by omega
    rw [height_succ_opening h]
    omega

private theorem Pending.paired {index place : Nat} (h : Pending word index 0 place)
    (hw : word[index]? = some (some .closing)) : Paired word place index where
  lt := h.lt
  level := by
    have := h.level
    rw [height_succ_closing hw]
    omega
  above := h.above

private theorem drop_eq_cons {index : Nat} {place? : Option Brace} {rest : List (Option Brace)}
    (h : word.drop index = place? :: rest) :
    word[index]? = some place? ∧ word.drop (index + 1) = rest := by
  constructor
  · rw [← List.head?_drop, h, List.head?_cons]
  · rw [← List.tail_drop, h, List.tail_cons]

/-- The pass that fills a table links only braces that belong together. -/
private theorem paired_of_fill {index : Nat} {opened : List Nat} {start result : Table}
    {rest : List (Option Brace)} (h : fill index opened start rest = .ok result)
    (hw : word.drop index = rest)
    (ho : ∀ inner place : Nat, opened[inner]? = some place → Pending word index inner place)
    (hs : ∀ i j : Nat, start[i]? = some (some j) → Paired word i j ∨ Paired word j i) :
    ∀ i j : Nat, result[i]? = some (some j) → Paired word i j ∨ Paired word j i := by
  fun_induction fill index opened start rest with
  | case1 =>
    cases h
    exact hs
  | case2 => cases h
  | case3 index opened table rest ih =>
    obtain ⟨hi, hr⟩ := drop_eq_cons hw
    refine ih h hr ?_ hs
    intro inner place hp
    refine (ho inner place hp).succ ?_
    rw [height_succ_other hi, (ho inner place hp).level]
  | case4 index opened table rest ih =>
    obtain ⟨hi, hr⟩ := drop_eq_cons hw
    refine ih h hr ?_ hs
    intro inner place hp
    cases inner with
    | zero =>
      cases hp
      exact pending_opening hi
    | succ inner =>
      refine (ho inner place hp).succ ?_
      rw [height_succ_opening hi, (ho inner place hp).level]
      omega
  | case5 => cases h
  | case6 index first outer table rest ih =>
    obtain ⟨hi, hr⟩ := drop_eq_cons hw
    refine ih h hr ?_ ?_
    · intro inner place hp
      refine (ho (inner + 1) place hp).succ ?_
      rw [height_succ_closing hi, (ho (inner + 1) place hp).level]
      omega
    · intro i j hij
      have hpair : Paired word first index := (ho 0 first rfl).paired hi
      rcases eq_of_getElem?_link hij with ⟨rfl, rfl⟩ | ⟨rfl, rfl⟩ | hij
      · exact .inl hpair
      · exact .inr hpair
      · exact hs i j hij

variable {jumps : Table}

/-- A jump leads from a brace to the one that it belongs together with, and every pair of braces has
its two jumps. -/
theorem getD_table_eq_some_iff (h : table word = .ok jumps) {i j : Nat} :
    jumps.getD i none = some j ↔ Paired word i j ∨ Paired word j i := by
  rw [table] at h
  have hpaired : ∀ i j : Nat, jumps.getD i none = some j → Paired word i j ∨ Paired word j i := by
    intro i j hij
    refine paired_of_fill h rfl ?_ ?_ i j ?_
    · intro inner place hp
      cases hp
    · intro i j hij
      rw [Array.getElem?_replicate] at hij
      split at hij <;> cases hij
    · rw [Array.getD_eq_getD_getElem?] at hij
      cases he : jumps[i]? with
      | none => simp [he] at hij
      | some entry => rw [← hij, he, Option.getD_some]
  constructor
  · exact hpaired i j
  · intro hp
    have hb : ∃ brace, word[i]? = some (some brace) := by
      rcases hp with hp | hp
      · exact ⟨_, hp.opening⟩
      · exact ⟨_, hp.closing⟩
    obtain ⟨brace, hb⟩ := hb
    obtain ⟨k, hk⟩ := exists_entry_fill (i := i) h (by simp) (by simp)
      (.inr (.inr ⟨i, brace, (Nat.zero_add i).symm, hb⟩))
    have hd : jumps.getD i none = some k := by
      rw [Array.getD_eq_getD_getElem?, hk, Option.getD_some]
    rw [hd]
    rcases hpaired i k hd with hk | hk <;> rcases hp with hp | hp
    · rw [hk.second_unique hp]
    · have := hk.opening.symm.trans hp.closing
      cases this
    · have := hk.closing.symm.trans hp.opening
      cases this
    · rw [hk.first_unique hp]

/-- Every brace of a word with a jump table has a jump, and nothing else has. -/
theorem getD_table_eq_none_iff (h : table word = .ok jumps) {i : Nat} :
    jumps.getD i none = none ↔ ∀ brace, word[i]? ≠ some (some brace) := by
  constructor
  · intro hn brace hb
    obtain ⟨k, hk⟩ := exists_entry_fill (i := i) h (by simp) (by simp)
      (.inr (.inr ⟨i, brace, (Nat.zero_add i).symm, hb⟩))
    rw [Array.getD_eq_getD_getElem?, hk, Option.getD_some] at hn
    cases hn
  · intro hb
    cases hd : jumps.getD i none with
    | none => rfl
    | some j =>
      rcases (getD_table_eq_some_iff h).mp hd with hp | hp
      · exact absurd hp.opening (hb _)
      · exact absurd hp.closing (hb _)

end Jumps

end ScrewLang
