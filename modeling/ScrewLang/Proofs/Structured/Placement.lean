import ScrewLang.Proofs.Structured.Simulation

/-!
# Syntax trees and jump tables

The pass that fills a jump table and the reader of the syntax tree walk the same symbols, one with a
stack of open braces, the other by recursion. They succeed on the same programs, and where they do,
the tree stands in the program: the table makes partners of the two braces of every loop in it.
-/

namespace ScrewLang

namespace Structured

open Machine (State Image Controls Outcome)

/-- A leaf is no longer than the symbols that it is read from. -/
theorem Leaf.width_ofSymbol_le (rest : List Symbol) (symbol : Symbol) :
    (Leaf.ofSymbol rest symbol).width ≤ rest.length + 1 := by
  have h := congrArg List.length (Leaf.symbols_ofSymbol rest symbol).1
  rw [List.length_cons, List.length_append, Leaf.length_symbols, List.length_drop] at h
  omega

/-- The symbols of a leaf are passed over when a table is filled. -/
theorem Leaf.fill_ofSymbol {rest : List Symbol} {symbol : Symbol} (hb : symbol.brace? = none)
    (index : Nat) (opened : List Nat) (table : Jumps.Table) :
    Jumps.fill index opened table ((symbol :: rest).map Symbol.brace?) =
      Jumps.fill (index + (ofSymbol rest symbol).width) opened table
        ((rest.drop ((ofSymbol rest symbol).width - 1)).map Symbol.brace?) := by
  have hle := Leaf.width_ofSymbol_le rest symbol
  have hpos := (ofSymbol rest symbol).width_pos
  have hnone := (Leaf.symbols_ofSymbol rest symbol).2
  generalize (ofSymbol rest symbol).width = width at hle hpos hnone ⊢
  have hword : ∀ place? ∈ (rest.take (width - 1)).map Symbol.brace?, place? = none := by
    intro place? hp
    obtain ⟨other, ho, rfl⟩ := List.mem_map.mp hp
    exact hnone other ho
  have hrest : rest.map Symbol.brace? =
      (rest.take (width - 1)).map Symbol.brace? ++ (rest.drop (width - 1)).map Symbol.brace? := by
    rw [← List.map_append, List.take_append_drop]
  rw [List.map_cons, hb, Jumps.fill_none, hrest, Jumps.fill_append hword, List.length_map,
    List.length_take]
  congr 1
  omega

/-- From a place on, blocks stand in a program that end at the partners of some open braces. -/
def Closes (image : Image) : (opened : List Nat) → (place : Nat) → (outer : List Block) → Prop
  | [], _, [] => True
  | first :: opened, place, next :: outer =>
    image.symbols[place]? = some (.brace .closing) ∧
      image.jumps.getD first none = some place ∧ image.jumps.getD place none = some first ∧
      next.Placed image (place + 1) ∧ Closes image opened (place + 1 + next.width) outer
  | _, _, _ => False

private theorem drop_cons {symbols : Array Symbol} {index : Nat} {symbol : Symbol}
    {rest : List Symbol} (h : symbol :: rest = symbols.toList.drop index) :
    symbols[index]? = some symbol ∧ symbols.toList.drop (index + 1) = rest := by
  constructor
  · have hz := congrArg (fun word => word[0]?) h
    rw [List.getElem?_cons_zero, List.getElem?_drop, Nat.add_zero, Array.getElem?_toList] at hz
    exact hz.symm
  · rw [← List.drop_drop, ← h]
    rfl

private theorem stacked_of_le {index later : Nat} {opened : List Nat}
    (h : (index :: opened).Pairwise (· > ·)) (hl : index ≤ later) :
    (later :: opened).Pairwise (· > ·) := by
  rw [List.pairwise_cons] at h ⊢
  exact ⟨fun place hp => Nat.lt_of_lt_of_le (h.1 place hp) hl, h.2⟩

private theorem entries_of_fill {index first : Nat} {opened : List Nat} {start result : Jumps.Table}
    {word : List (Option Brace)} (hstack : (index :: first :: opened).Pairwise (· > ·))
    (hsize : index < start.size)
    (h : Jumps.fill (index + 1) opened (Jumps.link start first index) word = .ok result) :
    result.getD first none = some index ∧ result.getD index none = some first := by
  obtain ⟨hindex, hrest⟩ := List.pairwise_cons.mp hstack
  have hfirst : first < index := hindex first List.mem_cons_self
  have hnf : first ∉ opened := by
    intro hm
    exact Nat.lt_irrefl first ((List.pairwise_cons.mp hrest).1 first hm)
  have hni : index ∉ opened := by
    intro hm
    exact Nat.lt_irrefl index (hindex index (List.mem_cons_of_mem first hm))
  constructor
  · rw [Array.getD_eq_getD_getElem?, Jumps.getElem?_fill h (by omega) hnf,
      Jumps.getElem?_link_first start (by omega) (by omega), Option.getD_some]
  · rw [Array.getD_eq_getD_getElem?, Jumps.getElem?_fill h (by omega) hni,
      Jumps.getElem?_link_second start hsize, Option.getD_some]

/-- Where a jump table is filled to its end, a tree is read and stands in the program. -/
theorem placed_of_fill {image : Image} {index : Nat} {opened : List Nat} {start : Jumps.Table}
    {word : List Symbol} (hw : word = image.symbols.toList.drop index)
    (h : Jumps.fill index opened start (word.map Symbol.brace?) = .ok image.jumps)
    (hsize : start.size = image.symbols.size) (hstack : (index :: opened).Pairwise (· > ·)) :
    ∃ block outer, Block.read word = some (block, outer) ∧ block.Placed image index ∧
      Closes image opened (index + block.width) outer := by
  induction hn : word.length using Nat.strongRecOn generalizing word index opened start with
  | ind length ih =>
    subst hn
    cases word with
    | nil =>
      rw [Block.read]
      cases opened with
      | nil => exact ⟨.done, [], rfl, trivial, trivial⟩
      | cons first opened => cases h
    | cons symbol rest =>
      obtain ⟨hs, hd⟩ := drop_cons hw
      rw [Block.read]
      cases hb : symbol.brace? with
      | none =>
        have hpos := (Leaf.ofSymbol rest symbol).width_pos
        rw [Leaf.fill_ofSymbol hb] at h
        have hrest : rest.drop ((Leaf.ofSymbol rest symbol).width - 1) =
            image.symbols.toList.drop (index + (Leaf.ofSymbol rest symbol).width) := by
          generalize (Leaf.ofSymbol rest symbol).width = width at hpos ⊢
          rw [← hd, List.drop_drop]
          congr 1
          omega
        have hshorter : (rest.drop ((Leaf.ofSymbol rest symbol).width - 1)).length <
            (symbol :: rest).length := by
          rw [List.length_drop, List.length_cons]
          omega
        obtain ⟨next, outer, hr, hp, hc⟩ := ih _ hshorter hrest h hsize
          (stacked_of_le hstack (Nat.le_add_right _ _)) rfl
        refine ⟨.leaf (Leaf.ofSymbol rest symbol) next, outer, by rw [hr], ⟨?_, hp⟩, ?_⟩
        · exact ⟨symbol, hs, hb, by rw [hd]⟩
        · rwa [Block.width, ← Nat.add_assoc]
      | some brace =>
        obtain rfl := Symbol.eq_of_brace? hb
        cases brace with
        | opening =>
          rw [List.map_cons, hb, Jumps.fill_opening] at h
          have hstack' : ((index + 1) :: index :: opened).Pairwise (· > ·) := by
            refine List.pairwise_cons.mpr ⟨?_, hstack⟩
            intro place hp
            rcases List.mem_cons.mp hp with rfl | hp
            · exact Nat.lt_succ_self place
            · exact Nat.lt_succ_of_lt ((List.pairwise_cons.mp hstack).1 place hp)
          obtain ⟨body, outer, hr, hp, hc⟩ := ih _ (by simp) hd.symm h hsize hstack' rfl
          cases outer with
          | nil => exact hc.elim
          | cons next outer =>
            obtain ⟨hclosing, hforth, hback, hnext, houter⟩ := hc
            refine ⟨.loop body next, outer, by rw [hr], ⟨⟨hs, hclosing, hforth, hback⟩, hp, ?_⟩, ?_⟩
            · rwa [show index + body.width + 2 = index + 1 + body.width + 1 by omega]
            · rwa [Block.width, show index + (body.width + next.width + 2) =
                index + 1 + body.width + 1 + next.width by omega]
        | closing =>
          cases opened with
          | nil => cases h
          | cons first opened =>
            have hlt : index < start.size := by
              obtain ⟨hlt, -⟩ := Array.getElem?_eq_some_iff.mp hs
              rwa [hsize]
            have hrest : (index :: opened).Pairwise (· > ·) :=
              hstack.sublist ((List.sublist_cons_self first opened).cons_cons index)
            obtain ⟨next, outer, hr, hp, hc⟩ := ih _ (by simp) hd.symm h
              (by rw [Jumps.size_link, hsize]) (stacked_of_le hrest (Nat.le_succ index)) rfl
            obtain ⟨hforth, hback⟩ := entries_of_fill hstack hlt h
            exact ⟨.done, next :: outer, by rw [hr], trivial, hs, hforth, hback, hp, hc⟩

/-- Where a tree is read, a jump table is filled to its end. -/
theorem exists_fill_of_read {word : List Symbol} {block : Block} {outer : List Block}
    (h : Block.read word = some (block, outer)) {index : Nat} {opened : List Nat}
    (hl : opened.length = outer.length) (start : Jumps.Table) :
    ∃ result, Jumps.fill index opened start (word.map Symbol.brace?) = .ok result := by
  fun_induction Block.read word generalizing block outer index opened start with
  | case1 =>
    cases h
    obtain rfl := List.length_eq_zero_iff.mp hl
    exact ⟨start, rfl⟩
  | case2 symbol rest hb next inner hr ih =>
    cases h
    cases opened with
    | nil => cases hl
    | cons first opened =>
      rw [List.map_cons, hb]
      exact ih hr (Nat.succ.inj hl) _
  | case3 => cases h
  | case4 symbol rest hb body next inner hr ih =>
    cases h
    rw [List.map_cons, hb, Jumps.fill_opening]
    refine ih hr ?_ start
    rw [List.length_cons, List.length_cons, hl]
  | case5 => cases h
  | case6 symbol rest hb next inner hr ih =>
    cases h
    rw [Leaf.fill_ofSymbol hb]
    exact ih hr hl start
  | case7 => cases h

/-- A program with a jump table has a syntax tree, and the tree stands in the program. -/
theorem placed_of_jumps {program : Program} {jumps : Jumps.Table} (h : program.jumps = .ok jumps)
    (eof : EofPolicy) :
    ∃ block, Block.parse? program.symbols.toList = some block ∧
      block.Placed ⟨program.symbols, jumps, eof⟩ 0 := by
  rw [Program.jumps, Jumps.table] at h
  obtain ⟨block, outer, hr, hp, hc⟩ := @placed_of_fill ⟨program.symbols, jumps, eof⟩ 0 [] _ _ rfl h
    (by simp) (List.pairwise_singleton _ 0)
  rw [List.drop_zero] at hr
  cases outer with
  | nil => exact ⟨block, by simp only [Block.parse?, hr], hp⟩
  | cons next outer => exact hc.elim

/-- A program with a syntax tree has a jump table. -/
theorem exists_jumps_of_parse? {program : Program} {block : Block}
    (h : Block.parse? program.symbols.toList = some block) :
    ∃ jumps, program.jumps = .ok jumps := by
  unfold Block.parse? at h
  split at h
  · next hr => exact exists_fill_of_read hr rfl _
  · cases h

end Structured

end ScrewLang
