/-! Bytes as text. Every byte numbers one of the first 256 characters. -/

namespace ScriptedArrays
namespace Latin

def decodeByte (b : UInt8) : Char := Char.ofNat b.toNat

def decode (b : List UInt8) : String := String.ofList (b.map decodeByte)

def encodeChar? (c : Char) : Option UInt8 :=
  if c.toNat < 256 then some (UInt8.ofNat c.toNat) else none

def encodeChars? : List Char → Option (List UInt8)
  | [] => some []
  | c :: s => match encodeChar? c, encodeChars? s with
    | some b, some bs => some (b :: bs)
    | _, _ => none

/-- The bytes of a text, if all its characters are among the first 256. -/
def encode? (s : String) : Option (List UInt8) := encodeChars? s.toList

/-- The bytes of a text of ASCII characters. -/
def encodeAscii? (s : String) : Option (List UInt8) :=
  if s.toList.all (·.toNat < 128) then encode? s else none

theorem toNat_decodeByte (b : UInt8) : (decodeByte b).toNat = b.toNat := by
  have h : b.toNat < 256 := b.toNat_lt
  have hv : b.toNat.isValidChar := Or.inl (by omega)
  rw [decodeByte, Char.ofNat, dif_pos hv]
  rfl

@[simp] theorem encodeChar?_decodeByte (b : UInt8) : encodeChar? (decodeByte b) = some b := by
  have h : b.toNat < 256 := b.toNat_lt
  simp [encodeChar?, toNat_decodeByte, h]

@[simp] theorem encodeChars?_map_decodeByte (b : List UInt8) :
    encodeChars? (b.map decodeByte) = some b := by
  induction b with
  | nil => rfl
  | cons x xs ih => simp [encodeChars?, ih]

@[simp] theorem encode?_decode (b : List UInt8) : encode? (decode b) = some b := by
  simp [encode?, decode]

/-- Encoding loses nothing. -/
theorem map_decodeByte_of_encodeChars? {s : List Char} {b : List UInt8}
    (h : encodeChars? s = some b) : b.map decodeByte = s := by
  induction s generalizing b with
  | nil =>
    simp only [encodeChars?, Option.some.injEq] at h
    simp [← h]
  | cons c s ih =>
    rw [encodeChars?] at h
    split at h
    · rename_i x xs hx hxs
      simp only [Option.some.injEq] at h
      subst h
      rw [encodeChar?] at hx
      split at hx
      · simp only [Option.some.injEq] at hx
        subst hx
        have hc : (UInt8.ofNat c.toNat).toNat = c.toNat := by
          simp only [UInt8.toNat_ofNat']
          omega
        rw [List.map_cons, ih hxs, decodeByte, hc, Char.ofNat_toNat]
      · exact absurd hx (by simp)
    · exact absurd h (by simp)

theorem decode_of_encode? {s : String} {b : List UInt8} (h : encode? s = some b) : decode b = s := by
  rw [decode, map_decodeByte_of_encodeChars? h, String.ofList_toList]

@[simp] theorem length_decode (b : List UInt8) : (decode b).length = b.length := by
  simp [decode]

end Latin
end ScriptedArrays
