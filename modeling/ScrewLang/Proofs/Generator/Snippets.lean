import ScrewLang.Generator
import ScrewLang.Proofs.Structured.Triples

/-!
# What the snippets of the generator do

Cells are told as bytes, and all arithmetic on them is that of bytes, modulo 256. `Shows` fixes the
first cells of a tape, its length, the cursor and the console, and says nothing of the cells behind.
Each snippet has one triple, which is all that later proofs use of it.
-/

namespace ScrewLang

namespace Generator

open Structured

/-- A store whose tape has a given length, cursor and first cells, and whose console is given. -/
structure Shows (size : Nat) (console : Console) (cursor : Nat) (cells : List UInt8)
    (store : Store) : Prop where
  size : store.tape.size = size
  console : store.console = console
  cursor : store.tape.cursor = cursor
  cells : ∀ (i : Nat) (v : UInt8), cells[i]? = some v → store.tape.cells[i]? = some v.toInt8

variable {size : Nat} {console : Console} {cursor : Nat} {cells : List UInt8} {v w : UInt8}

namespace Shows

variable {store : Store}

/-- The current cell is the one that the cursor is on. -/
theorem get (h : Shows size console cursor cells store) (hv : cells[cursor]? = some v) :
    store.tape.get = v.toInt8 := by
  rw [Tape.get, Array.getD_eq_getD_getElem?, h.cursor, h.cells cursor v hv, Option.getD_some]

/-- Changing the current cell changes what is shown of it. -/
theorem modify (h : Shows size console cursor cells store) (hv : cells[cursor]? = some v)
    {change : Int8 → Int8} (hc : change v.toInt8 = w.toInt8) :
    Shows size console cursor (cells.set cursor w) ⟨store.tape.modify change, store.console⟩ := by
  have hget := h.get hv
  refine ⟨(Tape.size_modify _ _).trans h.size, h.console, h.cursor, ?_⟩
  intro i u hu
  have hm : (store.tape.modify change).cells =
      store.tape.cells.setIfInBounds cursor w.toInt8 := by
    rw [← hc, ← hget, ← h.cursor]
    rfl
  rw [hm]
  by_cases hi : cursor = i
  · subst hi
    have hlt : cursor < store.tape.cells.size :=
      (Array.getElem?_eq_some_iff.mp (h.cells cursor v hv)).1
    rw [List.getElem?_set_self (List.getElem?_eq_some_iff.mp hv).1] at hu
    cases hu
    rw [Array.getElem?_setIfInBounds_self_of_lt hlt]
  · rw [List.getElem?_set_ne hi] at hu
    rw [Array.getElem?_setIfInBounds_ne hi, h.cells i u hu]

/-- Cells need not all be told. -/
theorem first {x y : UInt8} (h : Shows size console cursor [x, y] store) :
    Shows size console cursor [x] store := by
  refine ⟨h.size, h.console, h.cursor, fun i u hu => h.cells i u ?_⟩
  cases i with
  | zero => exact hu
  | succ i => cases hu

/-- The second cell of a tape that has one. -/
theorem exists_second {x : UInt8} (h : Shows size console cursor [x] store) (hs : 2 ≤ size) :
    ∃ y, Shows size console cursor [x, y] store := by
  have hlt : 1 < store.tape.cells.size := by
    have hsize := h.size
    rw [Tape.size] at hsize
    omega
  refine ⟨store.tape.cells[1].toUInt8, h.size, h.console, h.cursor, fun i u hu => ?_⟩
  cases i with
  | zero => exact h.cells 0 u hu
  | succ i =>
    cases i with
    | zero =>
      cases hu
      rw [Int8.toInt8_toUInt8, Array.getElem?_eq_getElem hlt]
    | succ i => cases hu

end Shows

private theorem set_of_getElem? (hv : cells[cursor]? = some v) : cells.set cursor v = cells := by
  obtain ⟨hlt, rfl⟩ := List.getElem?_eq_some_iff.mp hv
  exact List.set_getElem_self hlt

/-- Single steps on the current cell. -/
theorem ensures_replicate {first : Leaf} {symbol : Symbol} {change : UInt8} (hf : first.Plain)
    (hs : first.symbols = [symbol])
    (hx : ∀ eof place store, first.exec eof place store =
      .ok ⟨store.tape.modify (· + change.toInt8), store.console⟩)
    (hv : cells[cursor]? = some v) (count : Nat) :
    Ensures (Shows size console cursor cells) (List.replicate count symbol)
      (Shows size console cursor (cells.set cursor (v + UInt8.ofNat count * change))) := by
  have hlt : cursor < cells.length := (List.getElem?_eq_some_iff.mp hv).1
  induction count generalizing cells v with
  | zero =>
    have hz : v + UInt8.ofNat 0 * change = v := by simp
    rw [hz, set_of_getElem? hv]
    exact .nil
  | succ count ih =>
    have hstep : Ensures (Shows size console cursor cells) first.symbols
        (Shows size console cursor (cells.set cursor (v + change))) := by
      refine .leaf hf fun eof place store h => ⟨_, hx eof place store, h.modify hv ?_⟩
      rw [UInt8.toInt8_add]
    have hself : (cells.set cursor (v + change))[cursor]? = some (v + change) :=
      List.getElem?_set_self hlt
    have hnext := ih hself (by rwa [List.length_set])
    have hsum : v + change + UInt8.ofNat count * change = v + UInt8.ofNat (count + 1) * change := by
      rw [UInt8.ofNat_add]
      grind
    rw [List.set_set, hsum] at hnext
    rw [hs] at hstep
    exact hstep.append hnext

/-- Steps upwards. -/
theorem ensures_up (hv : cells[cursor]? = some v) (count : Nat) :
    Ensures (Shows size console cursor cells) (up count)
      (Shows size console cursor (cells.set cursor (v + UInt8.ofNat count))) := by
  have h := @ensures_replicate size console cursor cells v .increment .increment 1 trivial rfl
    (fun _ _ _ => rfl) hv count
  rwa [UInt8.mul_one] at h

/-- Steps downwards. -/
theorem ensures_down (hv : cells[cursor]? = some v) (count : Nat) :
    Ensures (Shows size console cursor cells) (down count)
      (Shows size console cursor (cells.set cursor (v - UInt8.ofNat count))) := by
  have hx (eof : EofPolicy) (place : Nat) (store : Store) : Leaf.decrement.exec eof place store =
      .ok ⟨store.tape.modify (· + UInt8.toInt8 (-1)), store.console⟩ := by
    have hsub : (fun x : Int8 => x - 1) = (· + UInt8.toInt8 (-1)) := by
      funext x
      exact Int8.sub_eq_add_neg x 1
    rw [← hsub]
    rfl
  have h := @ensures_replicate size console cursor cells v .decrement .decrement (-1) trivial rfl hx
    hv count
  have he : v + UInt8.ofNat count * -1 = v - UInt8.ofNat count := by grind
  rwa [he] at h

/-- The shortest way around the ring leads to its target. -/
theorem ensures_delta (current target : UInt8) :
    Ensures (Shows size console 0 [current]) (delta current target)
      (Shows size console 0 [target]) := by
  unfold delta
  split
  · have h := @ensures_up size console 0 [current] current rfl (target - current).toNat
    have he : current + (target - current) = target := by grind
    rwa [UInt8.ofNat_toNat, List.set_cons_zero, he] at h
  · have h := @ensures_down size console 0 [current] current rfl (current - target).toNat
    have he : current - (current - target) = target := by grind
    rwa [UInt8.ofNat_toNat, List.set_cons_zero, he] at h

/-- Clearing leaves a zero. -/
theorem ensures_clear (hv : cells[cursor]? = some v) :
    Ensures (Shows size console cursor cells) clear
      (Shows size console cursor (cells.set cursor 0)) := by
  have hself (u : UInt8) : (cells.set cursor u)[cursor]? = some u :=
    List.getElem?_set_self (List.getElem?_eq_some_iff.mp hv).1
  have hbody (u : UInt8) : Ensures (Shows size console cursor (cells.set cursor u)) (down 1)
      (Shows size console cursor (cells.set cursor (u - 1))) := by
    have hd := @ensures_down size console _ _ _ (hself u) 1
    rwa [List.set_set] at hd
  have h := @Ensures.loop _ (fun u => Shows size console cursor (cells.set cursor u))
    (fun u _ hs => hs.get (hself u)) (fun u _ => hbody u) v
  rwa [set_of_getElem? hv] at h

/-- Moving to the right. -/
theorem ensures_right (h : cursor + 1 < size) :
    Ensures (Shows size console cursor cells) [.right] (Shows size console (cursor + 1) cells) := by
  refine @Ensures.leaf _ _ .right trivial fun eof place store hs => ?_
  have hlt : store.tape.cursor + 1 < store.tape.size := by rwa [hs.cursor, hs.size]
  refine ⟨_, if_pos hlt, hs.size, hs.console, ?_, hs.cells⟩
  show store.tape.cursor + 1 = cursor + 1
  rw [hs.cursor]

/-- Moving to the left. -/
theorem ensures_left :
    Ensures (Shows size console (cursor + 1) cells) [.left] (Shows size console cursor cells) := by
  refine @Ensures.leaf _ _ .left trivial fun eof place store hs => ?_
  have hpos : 0 < store.tape.cursor := by rw [hs.cursor]; exact Nat.succ_pos cursor
  refine ⟨_, if_pos hpos, hs.size, hs.console, ?_, hs.cells⟩
  show store.tape.cursor - 1 = cursor
  rw [hs.cursor, Nat.add_sub_cancel]

/-- Output emits the current cell while the output works. -/
theorem ensures_output (hv : cells[cursor]? = some v) (ho : console.outputFault = none) :
    Ensures (Shows size console cursor cells) [.output]
      (Shows size (console.emit [v]) cursor cells) := by
  refine @Ensures.leaf _ _ .output trivial fun eof place store hs => ?_
  have hr : store.console.emitRefusal? [store.tape.get.toUInt8] = none := by
    rw [hs.console, Console.emitRefusal?, ho, ite_self]
  refine ⟨⟨store.tape, console.emit [v]⟩, ?_, hs.size, rfl, hs.cursor, hs.cells⟩
  simp only [Leaf.exec, Store.emit, hr]
  rw [hs.get hv, hs.console, UInt8.toUInt8_toInt8]

/-- A loop on the first cell adds a number to the second, as often as the first cell says. -/
theorem ensures_multiply (hs : 2 ≤ size) (x y : UInt8) (count : Nat) :
    Ensures (Shows size console 0 [x, y]) (loop ([.right] ++ up count ++ [.left] ++ down 1))
      (Shows size console 0 [0, y + x * UInt8.ofNat count]) := by
  have hbody (v w : UInt8) : Ensures (Shows size console 0 [v, w])
      ([.right] ++ up count ++ [.left] ++ down 1)
      (Shows size console 0 [v - 1, w + UInt8.ofNat count]) := by
    have hright : Ensures (Shows size console 0 [v, w]) [.right] (Shows size console 1 [v, w]) :=
      ensures_right hs
    have hup : Ensures (Shows size console 1 [v, w]) (up count)
        (Shows size console 1 [v, w + UInt8.ofNat count]) := ensures_up rfl count
    have hdown : Ensures (Shows size console 0 [v, w + UInt8.ofNat count]) (down 1)
        (Shows size console 0 [v - 1, w + UInt8.ofNat count]) := ensures_down rfl 1
    exact ((hright.append hup).append ensures_left).append hdown
  -- The second cell has gained the number once for every one that the first has lost.
  have hstep (v : UInt8) : Ensures (Shows size console 0 [v, y + (x - v) * UInt8.ofNat count])
      ([.right] ++ up count ++ [.left] ++ down 1)
      (Shows size console 0 [v - 1, y + (x - (v - 1)) * UInt8.ofNat count]) := by
    have hnext : y + (x - v) * UInt8.ofNat count + UInt8.ofNat count =
        y + (x - (v - 1)) * UInt8.ofNat count := by grind
    rw [← hnext]
    exact hbody v _
  have h := @Ensures.loop _ (fun v => Shows size console 0 [v, y + (x - v) * UInt8.ofNat count])
    (fun _ _ hshows => hshows.get rfl) (fun v _ => hstep v) x
  have hstart : y + (x - x) * UInt8.ofNat count = y := by grind
  have hend : y + (x - 0) * UInt8.ofNat count = y + x * UInt8.ofNat count := by grind
  rwa [hstart, hend] at h

/-- A loop on the second cell moves it into the first. -/
theorem ensures_move (hs : 2 ≤ size) (x y : UInt8) :
    Ensures (Shows size console 1 [x, y]) (loop ([.left] ++ up 1 ++ [.right] ++ down 1))
      (Shows size console 1 [x + y, 0]) := by
  have hbody (v w : UInt8) : Ensures (Shows size console 1 [w, v])
      ([.left] ++ up 1 ++ [.right] ++ down 1) (Shows size console 1 [w + 1, v - 1]) := by
    have hleft : Ensures (Shows size console 1 [w, v]) [.left] (Shows size console 0 [w, v]) :=
      ensures_left
    have hup : Ensures (Shows size console 0 [w, v]) (up 1) (Shows size console 0 [w + 1, v]) :=
      ensures_up rfl 1
    have hdown : Ensures (Shows size console 1 [w + 1, v]) (down 1)
        (Shows size console 1 [w + 1, v - 1]) := ensures_down rfl 1
    exact ((hleft.append hup).append (ensures_right hs)).append hdown
  have hstep (v : UInt8) : Ensures (Shows size console 1 [x + (y - v), v])
      ([.left] ++ up 1 ++ [.right] ++ down 1)
      (Shows size console 1 [x + (y - (v - 1)), v - 1]) := by
    have hnext : x + (y - v) + 1 = x + (y - (v - 1)) := by grind
    rw [← hnext]
    exact hbody v _
  have h := @Ensures.loop _ (fun v => Shows size console 1 [x + (y - v), v])
    (fun _ _ hshows => hshows.get rfl) (fun v _ => hstep v) y
  have hstart : x + (y - y) = x := by grind
  have hend : x + (y - 0) = x + y := by grind
  rwa [hstart, hend] at h

/-- A correction leads from the product to the target, also when the product has wrapped around. -/
theorem ensures_correction (x : UInt8) (target product : Nat) :
    Ensures (Shows size console 1 [x, UInt8.ofNat product]) (correction target product)
      (Shows size console 1 [x, UInt8.ofNat target]) := by
  unfold correction
  split
  · next hle =>
    have h : Ensures (Shows size console 1 [x, UInt8.ofNat product]) (up (target - product))
        (Shows size console 1 [x, UInt8.ofNat product + UInt8.ofNat (target - product)]) :=
      ensures_up rfl (target - product)
    rwa [← UInt8.ofNat_add, Nat.add_sub_cancel' hle] at h
  · next hgt =>
    have h : Ensures (Shows size console 1 [x, UInt8.ofNat product]) (down (product - target))
        (Shows size console 1 [x, UInt8.ofNat product - UInt8.ofNat (product - target)]) :=
      ensures_down rfl (product - target)
    have he : UInt8.ofNat product = UInt8.ofNat target + UInt8.ofNat (product - target) := by
      rw [← UInt8.ofNat_add, Nat.add_sub_cancel' (Nat.le_of_not_le hgt)]
    rw [he, UInt8.add_sub_cancel, ← he] at h
    exact h

/-- Building a value by a product, whatever the factor, ends with the value in the first cell. -/
theorem ensures_product (hs : 2 ≤ size) (x y target : UInt8) (factor : Nat) :
    Ensures (Shows size console 0 [x, y]) (product target factor)
      (Shows size console 0 [target, 0]) := by
  have hfirst : Ensures (Shows size console 0 [x, y]) clear (Shows size console 0 [0, y]) :=
    ensures_clear rfl
  have hsecond : Ensures (Shows size console 1 [0, y]) clear (Shows size console 1 [0, 0]) :=
    ensures_clear rfl
  have hfactor : Ensures (Shows size console 0 [0, 0]) (up factor)
      (Shows size console 0 [0 + UInt8.ofNat factor, 0]) := ensures_up rfl factor
  have hloop := @ensures_multiply size console hs (0 + UInt8.ofNat factor) 0
    (quotient target.toNat factor)
  have hproduct : 0 + (0 + UInt8.ofNat factor) * UInt8.ofNat (quotient target.toNat factor) =
      UInt8.ofNat (factor * quotient target.toNat factor) := by
    rw [UInt8.zero_add, UInt8.zero_add, UInt8.ofNat_mul]
  rw [hproduct] at hloop
  have hcorrection := @ensures_correction size console 0 target.toNat
    (factor * quotient target.toNat factor)
  rw [UInt8.ofNat_toNat] at hcorrection
  have hmove := @ensures_move size console hs 0 target
  rw [UInt8.zero_add] at hmove
  have hcleared := ((hfirst.append (ensures_right hs)).append hsecond).append ensures_left
  have hbuilt := ((hcleared.append hfactor).append hloop).append (ensures_right hs)
  exact ((hbuilt.append hcorrection).append hmove).append ensures_left

end Generator

end ScrewLang
