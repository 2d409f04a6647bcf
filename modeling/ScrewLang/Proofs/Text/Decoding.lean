import ScrewLang.Proofs.Text.Encoding

/-!
# Bytes cut into characters

Encoder and decoder follow one table: which bytes spell a value, by the number of bytes. A piece is
cut as a character exactly if its bytes are spelled by that table, and they are then the bytes that
encode the character. So the decoder undoes the encoder, and on any other byte string it alters only
bytes that are no characters of their own.
-/

namespace ScrewLang.Text

variable {b other x low high : UInt8} {n v : Nat} {c : Char} {rest more further : List UInt8}
  {lead : Lead}

/-! ### The bytes that spell a value -/

/-- The bytes that spell a value: a first byte with the leading bits, and followers with six more
bits each. Surrogates are not spelled. -/
inductive Spelled (v : Nat) : UInt8 → List UInt8 → Prop where
  | one {b : UInt8} (value : v < 0x80) (lead : b.toNat = v) : Spelled v b []
  | two {b x : UInt8} (value : 0x80 ≤ v ∧ v < 0x800) (lead : b.toNat = 0xC0 + v / 64)
      (first : x.toNat = 0x80 + v % 64) : Spelled v b [x]
  | three {b x y : UInt8} (value : 0x800 ≤ v ∧ v < 0x10000) (scalar : v < 0xD800 ∨ 0xDFFF < v)
      (lead : b.toNat = 0xE0 + v / 64 / 64) (first : x.toNat = 0x80 + v / 64 % 64)
      (second : y.toNat = 0x80 + v % 64) : Spelled v b [x, y]
  | four {b x y z : UInt8} (value : 0x10000 ≤ v ∧ v < 0x110000)
      (lead : b.toNat = 0xF0 + v / 64 / 64 / 64) (first : x.toNat = 0x80 + v / 64 / 64 % 64)
      (second : y.toNat = 0x80 + v / 64 % 64) (third : z.toNat = 0x80 + v % 64) :
      Spelled v b [x, y, z]

/-- The bytes of a character spell its value. -/
theorem spelled_encode (c : Char) :
    ∃ b more, String.utf8EncodeChar c = b :: more ∧ Spelled c.toNat b more := by
  have hvalid : c.toNat < 0xD800 ∨ 0xDFFF < c.toNat ∧ c.toNat < 0x110000 := c.valid
  simp only [String.utf8EncodeChar, Char.toNat_val]
  split
  · refine ⟨_, _, rfl, .one (by omega) ?_⟩
    rw [UInt8.toNat_ofNat']
    omega
  · split
    · refine ⟨_, _, rfl, .two (by omega) ?_ ?_⟩ <;> rw [UInt8.toNat_ofNat'] <;> omega
    · split
      · refine ⟨_, _, rfl, .three (by omega) (by omega) ?_ ?_ ?_⟩ <;> rw [UInt8.toNat_ofNat'] <;>
          omega
      · refine ⟨_, _, rfl, .four (by omega) ?_ ?_ ?_ ?_⟩ <;> rw [UInt8.toNat_ofNat'] <;> omega

/-- A value is spelled in one way. -/
theorem Spelled.unique (h : Spelled v b more) (ho : Spelled v other further) :
    b :: more = other :: further := by
  cases h <;> cases ho <;>
    simp only [List.cons.injEq, ← UInt8.toNat_inj, reduceCtorEq, and_true, and_false] <;> omega

/-- A first byte continues no character. -/
theorem Spelled.begins (h : Spelled v b more) : ¬(0x80 ≤ b.toNat ∧ b.toNat ≤ 0xBF) := by
  cases h <;> omega

theorem Spelled.continues (h : Spelled v b more) :
    ∀ x ∈ more, 0x80 ≤ x.toNat ∧ x.toNat ≤ 0xBF := by
  cases h <;> simp <;> omega

/-- A first byte tells how many bytes follow it. -/
theorem Spelled.length_eq {w : Nat} (h : Spelled v b more) (ho : Spelled w b further) :
    more.length = further.length := by
  cases h <;> cases ho <;> simp <;> omega

theorem toNat_ofNat_of_valid (h : v.isValidChar) : (Char.ofNat v).toNat = v := by
  rw [Char.ofNat, dif_pos h]
  rfl

/-- A value that is spelled belongs to a character. -/
theorem Spelled.toNat_ofNat (h : Spelled v b more) : (Char.ofNat v).toNat = v := by
  apply toNat_ofNat_of_valid
  unfold Nat.isValidChar
  cases h <;> omega

theorem Spelled.encode (h : Spelled v b more) :
    String.utf8EncodeChar (Char.ofNat v) = b :: more := by
  obtain ⟨first, further, he, hs⟩ := spelled_encode (Char.ofNat v)
  rw [h.toNat_ofNat] at hs
  rw [he, hs.unique h]

/-! ### The pieces of a byte string -/

/-- The announcements of first bytes, by the number of followers. -/
theorem Lead.ofByte?_eq_some_iff : ofByte? b = some lead ↔
    b.toNat < 0x80 ∧ lead = ⟨b.toNat, 0, 0x80, 0xBF⟩ ∨
    (0xC2 ≤ b.toNat ∧ b.toNat < 0xE0) ∧ lead = ⟨b.toNat - 0xC0, 1, 0x80, 0xBF⟩ ∨
    (0xE0 ≤ b.toNat ∧ b.toNat < 0xF0) ∧ lead = ⟨b.toNat - 0xE0, 2,
      if b = 0xE0 then 0xA0 else 0x80, if b = 0xED then 0x9F else 0xBF⟩ ∨
    (0xF0 ≤ b.toNat ∧ b.toNat < 0xF5) ∧ lead = ⟨b.toNat - 0xF0, 3,
      if b = 0xF0 then 0x90 else 0x80, if b = 0xF4 then 0x8F else 0xBF⟩ := by
  simp only [ofByte?, UInt8.lt_iff_toNat_lt, UInt8.reduceToNat]
  grind

theorem continues_iff : 0x80 ≤ x ∧ x ≤ 0xBF ↔ 0x80 ≤ x.toNat ∧ x.toNat ≤ 0xBF := by
  rw [UInt8.le_iff_toNat_le, UInt8.le_iff_toNat_le]
  rfl

/-- A range of followers that two first bytes narrow, in numbers. -/
theorem narrowed_iff {below above : UInt8} (hl : 0x80 ≤ low.toNat) (hh : high.toNat ≤ 0xBF) :
    (if b = below then low else 0x80) ≤ x ∧ x ≤ (if b = above then high else 0xBF) ↔
      (0x80 ≤ x.toNat ∧ x.toNat ≤ 0xBF) ∧ (b.toNat = below.toNat → low.toNat ≤ x.toNat) ∧
        (b.toNat = above.toNat → x.toNat ≤ high.toNat) := by
  have hleast : (0x80 : UInt8).toNat = 0x80 := rfl
  have hgreatest : (0xBF : UInt8).toNat = 0xBF := rfl
  rw [UInt8.toNat_inj, UInt8.toNat_inj, UInt8.le_iff_toNat_le, UInt8.le_iff_toNat_le]
  split <;> split <;> simp_all <;> omega

/-- The first of two followers: no overlong spelling and no surrogate. -/
theorem narrowed_three :
    (if b = 0xE0 then 0xA0 else 0x80) ≤ x ∧ x ≤ (if b = 0xED then 0x9F else 0xBF) ↔
      (0x80 ≤ x.toNat ∧ x.toNat ≤ 0xBF) ∧ (b.toNat = 0xE0 → 0xA0 ≤ x.toNat) ∧
        (b.toNat = 0xED → x.toNat ≤ 0x9F) :=
  narrowed_iff (by decide) (by decide)

/-- The first of three followers: no overlong spelling and no value above the last. -/
theorem narrowed_four :
    (if b = 0xF0 then 0x90 else 0x80) ≤ x ∧ x ≤ (if b = 0xF4 then 0x8F else 0xBF) ↔
      (0x80 ≤ x.toNat ∧ x.toNat ≤ 0xBF) ∧ (b.toNat = 0xF0 → 0x90 ≤ x.toNat) ∧
        (b.toNat = 0xF4 → x.toNat ≤ 0x8F) :=
  narrowed_iff (by decide) (by decide)

theorem followers_cons (h : low ≤ x ∧ x ≤ high) (rest : List UInt8) :
    followers (n + 1) low high (x :: rest) = x :: followers n 0x80 0xBF rest :=
  if_pos h

/-- All followers are there: the first of them, and all that follow it. -/
theorem exists_cons_of_followers (h : (followers (n + 1) low high rest).length = n + 1) :
    ∃ x more, rest = x :: more ∧ (low ≤ x ∧ x ≤ high) ∧
      (followers n 0x80 0xBF more).length = n := by
  cases rest with
  | nil => simp [followers] at h
  | cons x more =>
    by_cases hx : low ≤ x ∧ x ≤ high
    · rw [followers_cons hx] at h
      exact ⟨x, more, rfl, hx, Nat.succ.inj h⟩
    · simp [followers, hx] at h

/-- Followers are the bytes that stand next. -/
theorem followers_eq_take (n : Nat) (low high : UInt8) (rest : List UInt8) :
    followers n low high rest = rest.take (followers n low high rest).length := by
  induction n generalizing low high rest with
  | zero => rfl
  | succ n ih =>
    cases rest with
    | nil => rfl
    | cons x more =>
      by_cases hx : low ≤ x ∧ x ≤ high
      · rw [followers_cons hx, List.length_cons, List.take_succ_cons, ← ih]
      · simp [followers, hx]

theorem high_of_mem_followers (hl : 0x80 ≤ low.toNat) (hx : x ∈ followers n low high rest) :
    0x80 ≤ x.toNat := by
  induction n generalizing low high rest with
  | zero => simp [followers] at hx
  | succ n ih =>
    cases rest with
    | nil => simp [followers] at hx
    | cons y more =>
      rw [followers] at hx
      split at hx
      · next hy =>
        rcases List.mem_cons.mp hx with rfl | hm
        · exact Nat.le_trans hl (UInt8.le_iff_toNat_le.mp hy.1)
        · exact ih (by decide) hm
      · cases hx

/-- A piece is a character if the followers that its first byte announces are all there. -/
theorem chunk_of_followers {run : List UInt8} (hl : Lead.ofByte? b = some lead)
    (hn : run.length = lead.followers)
    (hrun : followers lead.followers lead.low lead.high rest = run)
    (hv : run.foldl (fun value next => value * 64 + next.toNat % 64) lead.payload = v) :
    chunk b rest = (some (Char.ofNat v), run.length) := by
  rw [chunk, hl]
  simp only [hrun, hn, hv, ↓reduceIte]

theorem followers_of_chunk (h : chunk b rest = (some c, n)) :
    ∃ lead, Lead.ofByte? b = some lead ∧ lead.followers = n ∧
      (followers n lead.low lead.high rest).length = n ∧
      c = Char.ofNat ((followers n lead.low lead.high rest).foldl
        (fun value next => value * 64 + next.toNat % 64) lead.payload) := by
  rw [chunk] at h
  cases hl : Lead.ofByte? b with
  | none => simp [hl] at h
  | some lead =>
    simp only [hl] at h
    split at h
    · next hn =>
      obtain ⟨hc, rfl⟩ := Prod.mk.inj h
      rw [hn]
      exact ⟨lead, rfl, rfl, hn, (Option.some.inj hc).symm⟩
    · cases h

/-- What is spelled is cut as one character. -/
theorem Spelled.chunk (h : Spelled v b more) (rest : List UInt8) :
    chunk b (more ++ rest) = (some (Char.ofNat v), more.length) := by
  cases h with
  | one hv hb =>
    exact chunk_of_followers (Lead.ofByte?_eq_some_iff.mpr (.inl ⟨by omega, rfl⟩)) rfl rfl hb
  | @two x hv hb hx =>
    have hrun : followers 1 0x80 0xBF ([x] ++ rest) = [x] :=
      followers_cons (continues_iff.mpr (by omega)) rest
    refine chunk_of_followers (Lead.ofByte?_eq_some_iff.mpr (.inr (.inl ⟨by omega, rfl⟩)))
      rfl hrun ?_
    dsimp only [List.foldl_cons, List.foldl_nil]
    omega
  | @three x y hv hs hb hx hy =>
    have hrun : followers 2 (if b = 0xE0 then 0xA0 else 0x80) (if b = 0xED then 0x9F else 0xBF)
        ([x, y] ++ rest) = [x, y] := by
      rw [List.cons_append, followers_cons (narrowed_three.mpr (by omega)), List.cons_append,
        followers_cons (continues_iff.mpr (by omega)), followers]
    refine chunk_of_followers (Lead.ofByte?_eq_some_iff.mpr (.inr (.inr (.inl ⟨by omega, rfl⟩))))
      rfl hrun ?_
    dsimp only [List.foldl_cons, List.foldl_nil]
    omega
  | @four x y z hv hb hx hy hz =>
    have hrun : followers 3 (if b = 0xF0 then 0x90 else 0x80) (if b = 0xF4 then 0x8F else 0xBF)
        ([x, y, z] ++ rest) = [x, y, z] := by
      rw [List.cons_append, followers_cons (narrowed_four.mpr (by omega)), List.cons_append,
        followers_cons (continues_iff.mpr (by omega)), List.cons_append,
        followers_cons (continues_iff.mpr (by omega)), followers]
    refine chunk_of_followers (Lead.ofByte?_eq_some_iff.mpr (.inr (.inr (.inr ⟨by omega, rfl⟩))))
      rfl hrun ?_
    dsimp only [List.foldl_cons, List.foldl_nil]
    omega

/-- What is cut as one character is spelled. -/
theorem spelled_of_chunk (h : chunk b rest = (some c, n)) :
    ∃ v, c = Char.ofNat v ∧ Spelled v b (rest.take n) := by
  obtain ⟨lead, hl, rfl, hfull, rfl⟩ := followers_of_chunk h
  refine ⟨_, rfl, ?_⟩
  -- The range of the first follower keeps the value in the range of its length, off the surrogates.
  rcases Lead.ofByte?_eq_some_iff.mp hl with ⟨hb, rfl⟩ | ⟨hb, rfl⟩ | ⟨hb, rfl⟩ | ⟨hb, rfl⟩
  · exact .one hb rfl
  · obtain ⟨x, more, rfl, hx, -⟩ := exists_cons_of_followers hfull
    dsimp only
    rw [followers_cons hx]
    dsimp only [followers, List.foldl_cons, List.foldl_nil, List.take_succ_cons, List.take_zero]
    rw [continues_iff] at hx
    exact .two (by omega) (by omega) (by omega)
  · obtain ⟨x, more, rfl, hx, hfull⟩ := exists_cons_of_followers hfull
    obtain ⟨y, more, rfl, hy, -⟩ := exists_cons_of_followers hfull
    dsimp only
    rw [followers_cons hx, followers_cons hy]
    dsimp only [followers, List.foldl_cons, List.foldl_nil, List.take_succ_cons, List.take_zero]
    rw [narrowed_three] at hx
    rw [continues_iff] at hy
    exact .three (by omega) (by omega) (by omega) (by omega) (by omega)
  · obtain ⟨x, more, rfl, hx, hfull⟩ := exists_cons_of_followers hfull
    obtain ⟨y, more, rfl, hy, hfull⟩ := exists_cons_of_followers hfull
    obtain ⟨z, more, rfl, hz, -⟩ := exists_cons_of_followers hfull
    dsimp only
    rw [followers_cons hx, followers_cons hy, followers_cons hz]
    dsimp only [followers, List.foldl_cons, List.foldl_nil, List.take_succ_cons, List.take_zero]
    rw [narrowed_four] at hx
    rw [continues_iff] at hy hz
    exact .four (by omega) (by omega) (by omega) (by omega) (by omega)

/-- The bytes of a piece that is a character encode it. -/
theorem utf8EncodeChar_of_chunk (h : chunk b rest = (some c, n)) :
    String.utf8EncodeChar c = b :: rest.take n := by
  obtain ⟨v, rfl, hs⟩ := spelled_of_chunk h
  exact hs.encode

/-- The bytes of a broken piece are no characters of their own. -/
theorem high_of_chunk (h : chunk b rest = (none, n)) :
    ∀ x ∈ b :: rest.take n, 0x80 ≤ x.toNat := by
  have hb : 0x80 ≤ b.toNat := by
    refine Nat.le_of_not_lt fun hlt => ?_
    have hone := (Spelled.one hlt rfl).chunk rest
    rw [List.nil_append, h] at hone
    cases hone
  intro x hx
  rcases List.mem_cons.mp hx with rfl | hm
  · exact hb
  · rw [chunk] at h
    cases hl : Lead.ofByte? b with
    | none =>
      simp only [hl, Prod.mk.injEq, true_and] at h
      simp [← h] at hm
    | some lead =>
      have hlow : 0x80 ≤ lead.low.toNat := by
        rcases Lead.ofByte?_eq_some_iff.mp hl with ⟨-, rfl⟩ | ⟨-, rfl⟩ | ⟨-, rfl⟩ | ⟨-, rfl⟩
        · exact Nat.le_refl 0x80
        · exact Nat.le_refl 0x80
        · dsimp only
          split <;> decide
        · dsimp only
          split <;> decide
      simp only [hl] at h
      split at h
      · cases h
      · simp only [Prod.mk.injEq, true_and] at h
        rw [← h, ← followers_eq_take] at hm
        exact high_of_mem_followers hlow hm

/-! ### Decoded texts -/

/-- The bytes that are characters of their own, in order. -/
def plainBytes (input : List UInt8) : List UInt8 :=
  input.filter (· < 0x80)

theorem plainBytes_append (input more : List UInt8) :
    plainBytes (input ++ more) = plainBytes input ++ plainBytes more :=
  List.filter_append input more

theorem plainBytes_eq_nil (h : ∀ x ∈ rest, 0x80 ≤ x.toNat) : plainBytes rest = [] := by
  rw [plainBytes, List.filter_eq_nil_iff]
  intro x hx
  simpa [UInt8.lt_iff_toNat_lt] using h x hx

/-- A lossy decoder alters no byte that is a character of its own. -/
theorem plainBytes_decodeLossy (content : List UInt8) :
    plainBytes (bytes (decodeLossy content)) = plainBytes content := by
  rw [bytes, decodeLossy, String.toList_ofList]
  fun_induction chunks content with
  | case1 => rfl
  | case2 b rest piece ih =>
    obtain ⟨⟨character, n⟩, hp⟩ : ∃ cut, chunk b rest = cut := ⟨_, rfl⟩
    have hcut : b :: rest = (b :: rest.take n) ++ rest.drop n := by
      rw [List.cons_append, List.take_append_drop]
    rw [show piece = (character, n) from hp] at ih ⊢
    rw [List.map_cons, List.flatMap_cons, plainBytes_append, ih, hcut, plainBytes_append]
    congr 1
    -- A character has its own bytes; of a broken piece and of what replaces it no byte is plain.
    cases character with
    | none =>
      have hreplacement : plainBytes (String.utf8EncodeChar replacement) = [] := by decide
      rw [plainBytes_eq_nil (high_of_chunk hp)]
      exact hreplacement
    | some c => rw [← utf8EncodeChar_of_chunk hp]; rfl

/-- The bytes of a character are cut as that character. -/
theorem chunks_encode (c : Char) (rest : List UInt8) :
    chunks (String.utf8EncodeChar c ++ rest) = some c :: chunks rest := by
  obtain ⟨b, more, he, hs⟩ := spelled_encode c
  rw [he, List.cons_append, chunks]
  simp only [hs.chunk rest, Char.ofNat_toNat, List.drop_left]

/-- The bytes of a text are cut into its characters. -/
theorem chunks_flatMap_encode (text : List Char) :
    chunks (text.flatMap String.utf8EncodeChar) = text.map some := by
  induction text with
  | nil => rw [List.flatMap_nil, chunks]; rfl
  | cons c text ih => rw [List.flatMap_cons, chunks_encode, ih, List.map_cons]

/-- Decoding undoes encoding. -/
theorem decodeLossy_bytes (text : String) : decodeLossy (bytes text) = text := by
  rw [decodeLossy, bytes, chunks_flatMap_encode, List.map_map]
  simp [Function.comp_def]

/-- Bytes without a broken piece are the bytes of their characters. -/
theorem encode_of_chunks {input : List UInt8} (h : (chunks input).all Option.isSome = true) :
    ((chunks input).filterMap id).flatMap String.utf8EncodeChar = input := by
  fun_induction chunks input with
  | case1 => rfl
  | case2 b rest piece ih =>
    rw [List.all_cons, Bool.and_eq_true] at h
    obtain ⟨c, hc⟩ := Option.isSome_iff_exists.mp h.1
    have hpiece : chunk b rest = (some c, piece.2) := Prod.ext hc rfl
    rw [hc, List.filterMap_cons_some (f := id) (a := some c) rfl, List.flatMap_cons, ih h.2,
      utf8EncodeChar_of_chunk hpiece, List.cons_append, List.take_append_drop]

/-- The strict decoder accepts the bytes of a text and nothing else, and gives the text back. -/
theorem decode?_eq_some_iff {input : List UInt8} {text : String} :
    decode? input = some text ↔ bytes text = input := by
  constructor
  · intro h
    rw [decode?] at h
    split at h
    · next hall =>
      obtain rfl := Option.some.inj h
      rw [bytes, String.toList_ofList, encode_of_chunks hall]
    · cases h
  · rintro rfl
    rw [decode?, bytes, chunks_flatMap_encode]
    simp

/-- Where the first byte of a character stands in the bytes of a text, a character begins. -/
theorem exists_append_of_encode {text : List Char} {front : List UInt8} (hs : Spelled v b more)
    (h : text.flatMap String.utf8EncodeChar = front ++ b :: rest) :
    ∃ before after, text = before ++ after ∧ before.flatMap String.utf8EncodeChar = front ∧
      after.flatMap String.utf8EncodeChar = b :: rest := by
  induction text generalizing front with
  | nil => simp at h
  | cons d text ih =>
    cases front with
    | nil => exact ⟨[], d :: text, rfl, rfl, h⟩
    | cons first front =>
      obtain ⟨lead, followers, he, hd⟩ := spelled_encode d
      rw [List.flatMap_cons, he, List.cons_append, List.cons_append] at h
      obtain ⟨rfl, htail⟩ := List.cons.inj h
      rcases List.append_eq_append_iff.mp htail with ⟨passed, rfl, ht⟩ | ⟨inside, rfl, hi⟩
      · obtain ⟨before, after, rfl, rfl, ha⟩ := ih ht
        exact ⟨d :: before, after, rfl, by rw [List.flatMap_cons, he]; rfl, ha⟩
      · cases inside with
        | nil =>
          obtain ⟨before, after, rfl, hb, ha⟩ := @ih [] hi.symm
          refine ⟨d :: before, after, rfl, ?_, ha⟩
          rw [List.flatMap_cons, hb, he]
          simp
        | cons x inside =>
          -- within the bytes of `d` there is no first byte
          obtain ⟨rfl, -⟩ := List.cons.inj hi
          exact absurd (hd.continues b (by simp)) hs.begins

end ScrewLang.Text
