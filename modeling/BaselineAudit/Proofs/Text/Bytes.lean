import BaselineAudit.Proofs.Text.Lines
import Mathlib.Data.List.Induction

/-!
# Bytes of a text

Offsets count bytes. The location of an offset is read off the bytes in front of it, without a look at
the characters they belong to.

* `Text.bytes`: the bytes of a text, which are as many as `byteCount` says (`Text.length_bytes`).
* `Location.behind`: the location behind some bytes, by the newlines among them.
* `LineIndex.locate_eq_behind`: the index of lines finds this location.
* `Text.Aligned.of_bytes`: texts with newlines at the same bytes are in step.
-/

namespace BaselineAudit

/-! ## Bytes -/

namespace Text

/-- The bytes of some characters in UTF-8. -/
def bytes (cs : List Char) : List UInt8 := cs.flatMap String.utf8EncodeChar

/-- The byte of a newline. -/
def newline : UInt8 := '\n'.toUInt8

@[simp] theorem bytes_nil : bytes [] = [] := rfl

@[simp] theorem bytes_cons (c : Char) (cs : List Char) :
    bytes (c :: cs) = String.utf8EncodeChar c ++ bytes cs := rfl

@[simp] theorem bytes_append (cs ds : List Char) : bytes (cs ++ ds) = bytes cs ++ bytes ds := by
  simp [bytes]

@[simp] theorem length_bytes (cs : List Char) : (bytes cs).length = byteCount cs := by
  induction cs with
  | nil => rfl
  | cons c cs ih => simp [ih, String.length_utf8EncodeChar]

/-- The bytes of a text are those that it is stored as. -/
theorem bytes_toList (s : String) : bytes s.toList = s.toByteArray.data.toList := by
  rw [← String.utf8Encode_toList, List.utf8Encode, List.data_toByteArray]
  rfl

theorem byteCount_toList (s : String) : byteCount s.toList = s.utf8ByteSize := by
  rw [← length_bytes, bytes_toList, Array.length_toList]
  rfl

/-- Only the newline has the byte of a newline: all bytes of a character with several are larger. -/
theorem newline_mem_utf8EncodeChar {c : Char} :
    newline ∈ String.utf8EncodeChar c ↔ c = '\n' := by
  constructor
  · intro h
    have hnl : newline.toNat = 10 := rfl
    have eq_of : ∀ n, newline = UInt8.ofNat n → n % 256 = 10 := by
      intro n hn
      rw [← hnl, hn, UInt8.toNat_ofNat']
    have hc : c.val.toNat = 10 := by
      unfold String.utf8EncodeChar at h
      simp only at h
      split at h
      · have := eq_of _ (List.mem_singleton.mp h)
        omega
      · exfalso
        split at h
        · simp only [List.mem_cons, List.not_mem_nil, or_false] at h
          rcases h with h | h <;> have := eq_of _ h <;> omega
        · split at h <;> simp only [List.mem_cons, List.not_mem_nil, or_false] at h
          · rcases h with h | h | h <;> have := eq_of _ h <;> omega
          · rcases h with h | h | h | h <;> have := eq_of _ h <;> omega
    exact Char.ext (UInt32.toNat_inj.mp hc)
  · rintro rfl
    decide

theorem newline_mem_bytes {cs : List Char} : newline ∈ bytes cs ↔ '\n' ∈ cs := by
  simp [bytes, newline_mem_utf8EncodeChar]

/-- The bytes of a text that stands in another one are bytes of the other one. -/
theorem StandsAt.getElem?_bytes {cs w : List Char} {start o : Nat} (h : StandsAt cs start w)
    (ho : o < byteCount w) : (bytes cs)[start + o]? = (bytes w)[o]? := by
  obtain ⟨front, back, rfl, rfl⟩ := h
  have hw := length_bytes w
  have hfront := length_bytes front
  rw [bytes_append, bytes_append, List.append_assoc, List.getElem?_append_right (by omega),
    List.getElem?_append_left (by omega), hfront, Nat.add_sub_cancel_left]

end Text

/-! ## Locations by bytes -/

namespace Location

open Text

/-- The location behind one more byte. -/
def stepByte (l : Location) (b : UInt8) : Location :=
  if b = newline then ⟨l.line + 1, 1⟩ else ⟨l.line, l.column + 1⟩

/-- The location behind some bytes: its line counts the newlines among them, and its column the bytes
behind the last one. -/
def behind (bs : List UInt8) : Location :=
  ⟨bs.count newline + 1, (bs.reverse.takeWhile (· ≠ newline)).length + 1⟩

theorem foldl_stepByte_of_notMem (l : Location) {bs : List UInt8} (h : newline ∉ bs) :
    bs.foldl stepByte l = ⟨l.line, l.column + bs.length⟩ := by
  induction bs generalizing l with
  | nil => rfl
  | cons b bs ih =>
    have hb : b ≠ newline := fun hb => h (hb ▸ List.mem_cons_self)
    rw [List.foldl_cons, ih _ fun hmem => h (List.mem_cons_of_mem _ hmem), stepByte, if_neg hb]
    simp only [List.length_cons, Location.mk.injEq, true_and]
    omega

theorem foldl_stepByte_char (l : Location) (c : Char) :
    (String.utf8EncodeChar c).foldl stepByte l = l.step c := by
  by_cases hc : c = '\n'
  · subst hc
    rfl
  · rw [foldl_stepByte_of_notMem l (mt newline_mem_utf8EncodeChar.mp hc), step, if_neg hc,
      String.length_utf8EncodeChar]

/-- Moving through a text is moving through its bytes. Behind its end, only the column moves. -/
theorem move_eq_foldl (l : Location) (cs : List Char) (offset : Nat) :
    l.move cs offset =
      ⟨(((bytes cs).take offset).foldl stepByte l).line,
        (((bytes cs).take offset).foldl stepByte l).column + (offset - byteCount cs)⟩ := by
  induction cs generalizing l offset with
  | nil => simp [move]
  | cons c cs ih =>
    have hsize := String.length_utf8EncodeChar c
    rw [move]
    split
    next ho =>
      rw [bytes_cons, List.take_append_of_le_length (by omega), byteCount_cons,
        Nat.sub_eq_zero_of_le (by omega), Nat.add_zero]
      by_cases hc : c = '\n'
      · subst hc
        obtain rfl : offset = 0 := Nat.lt_one_iff.mp ho
        rfl
      · have hmem : newline ∉ (String.utf8EncodeChar c).take offset := fun h =>
          hc (newline_mem_utf8EncodeChar.mp (List.mem_of_mem_take h))
        rw [foldl_stepByte_of_notMem l hmem, List.length_take, Nat.min_eq_left (by omega)]
    next ho =>
      have hall : (String.utf8EncodeChar c).take offset = String.utf8EncodeChar c :=
        List.take_of_length_le (by omega)
      rw [ih, bytes_cons, List.take_append, hall, List.foldl_append, foldl_stepByte_char, hsize,
        byteCount_cons, Nat.sub_sub]

theorem foldl_stepByte_eq_behind (bs : List UInt8) : bs.foldl stepByte ⟨1, 1⟩ = behind bs := by
  induction bs using List.reverseRecOn with
  | nil => rfl
  | append_singleton bs b ih =>
    rw [List.foldl_append, ih, List.foldl_cons, List.foldl_nil, stepByte, behind, behind]
    by_cases hb : b = newline
    · simp [hb]
    · simp [hb]

/-- Moving looks at nothing but whether a byte is a newline. -/
theorem foldl_stepByte_congr {as bs : List UInt8} (hlength : as.length = bs.length)
    (h : ∀ o : Nat, as[o]? = some newline ↔ bs[o]? = some newline) {n : Nat} {l : Location} :
    (as.take n).foldl stepByte l = (bs.take n).foldl stepByte l := by
  induction as generalizing bs n l with
  | nil =>
    obtain rfl : bs = [] := List.length_eq_zero_iff.mp hlength.symm
    rfl
  | cons a as ih =>
    cases bs with
    | nil => exact absurd hlength (Nat.succ_ne_zero _)
    | cons b bs =>
      cases n with
      | zero => rfl
      | succ n =>
        have hhead : a = newline ↔ b = newline := by simpa using h 0
        rw [List.take_succ_cons, List.take_succ_cons, List.foldl_cons, List.foldl_cons,
          ih (Nat.succ.inj hlength) fun o => by simpa using h (o + 1)]
        simp only [stepByte, hhead]

end Location

/-- The index of lines finds the location that the bytes in front of an offset show. -/
theorem LineIndex.locate_eq_behind (s : String) {offset : Nat} (h : offset ≤ s.utf8ByteSize) :
    (LineIndex.ofText s).locate offset = .behind ((Text.bytes s.toList).take offset) := by
  rw [LineIndex.locate_eq, Location.move_eq_foldl, Location.foldl_stepByte_eq_behind,
    Text.byteCount_toList, Nat.sub_eq_zero_of_le h]
  rfl

/-- Texts that are equally long and have newlines at the same bytes are in step. -/
theorem Text.Aligned.of_bytes {v w : List Char} (hsize : byteCount v = byteCount w)
    (h : ∀ o : Nat, (bytes v)[o]? = some newline ↔ (bytes w)[o]? = some newline) : Aligned v w := by
  refine ⟨hsize, fun l offset => ?_⟩
  rw [Location.move_eq_foldl, Location.move_eq_foldl,
    Location.foldl_stepByte_congr (by simp [hsize]) h, hsize]

end BaselineAudit
