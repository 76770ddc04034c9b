import Zapada.Zaclr.SignatureDecoding

namespace Zapada.Zaclr

/-- The copies of `decode_compressed_uint`. -/
inductive UintDecoder where
  | signature
  | fieldLayout
  | genericContext
  | typeSystem
  | memberResolution
  | nativeAssembly
  | frame
deriving DecidableEq

/-- The copy of the frame takes any other lead byte for one of four bytes. -/
def UintDecoder.checksLead : UintDecoder → Bool
  | frame => false
  | _ => true

/-- A copy with its accesses to the data; `none` is one outside of it. -/
def UintDecoder.decode (decoder : UintDecoder) (blob : Blob) (offset : Nat) :
    Option (Except SignatureFailure (Nat × Nat)) :=
  if blob.length ≤ offset then some (.error .badMetadata)
  else do
    let first ← blob[offset]?
    let first := first.toNat
    if first &&& 0x80 = 0 then some (.ok (first, advance offset 1))
    else if first &&& 0xC0 = 0x80 then
      if blob.length ≤ advance offset 1 then some (.error .badMetadata)
      else do
        let second ← blob[advance offset 1]?
        some (.ok ((first &&& 0x3F) <<< 8 ||| second.toNat, advance offset 2))
    else if decoder.checksLead ∧ first &&& 0xE0 ≠ 0xC0 then some (.error .badMetadata)
    else if blob.length ≤ advance offset 3 then some (.error .badMetadata)
    else do
      let second ← blob[advance offset 1]?
      let third ← blob[advance offset 2]?
      let fourth ← blob[advance offset 3]?
      some (.ok ((first &&& 0x1F) <<< 24 ||| second.toNat <<< 16 ||| third.toNat <<< 8 |||
        fourth.toNat, advance offset 4))

/-- All copies give the same result without an access outside of the data, the encoded number
where one stands there. -/
def DecodersAgree (blob : Blob) (offset : Nat) : Prop :=
  ∃ result, (∀ decoder : UintDecoder, decoder.decode blob offset = some result) ∧
    ∀ value bytes, IsNumber value bytes → Spelled blob offset bytes →
      result = .ok (value, offset + bytes.length)

theorem lead_byte : ∀ first < 256, first &&& 0x80 = 0 ∨ first &&& 0xC0 = 0x80 ∨
    first &&& 0xE0 = 0xC0 ↔ first < 0xE0 := by
  decide +kernel

theorem read_inside {blob : Blob} (inside : index < blob.length) :
    blob[index]? = some (blob.getD index 0) := by
  rw [List.getD_eq_getElem?_getD, List.getElem?_eq_getElem inside, Option.getD_some]

section

variable {blob : Blob} {decoder : UintDecoder} {offset : Nat} (small : blob.length + 3 ≤ 2 ^ 32)

include small

/-- Apart from four bytes with a lead byte from 0xE0 on, a copy decodes as that of the
signatures. -/
theorem decode_eq (plain : decoder.checksLead = true ∨ (blob.getD offset 0).toNat < 0xE0 ∨
      blob.length ≤ offset + 3) :
    decoder.decode blob offset = some (decodeCompressedUint blob offset) := by
  unfold UintDecoder.decode decodeCompressedUint
  by_cases outside : blob.length ≤ offset
  · rw [if_pos outside, if_pos outside]
  have shift (count : Nat) (few : count ≤ 3) : advance offset count = offset + count :=
    Nat.mod_eq_of_lt (by omega)
  have lead := lead_byte _ (blob.getD offset 0).toNat_lt
  simp only [outside, if_false, read_inside (show offset < blob.length by omega),
    Option.bind_eq_bind, Option.bind_some, shift 1 (by decide), shift 2 (by decide),
    shift 3 (by decide)]
  by_cases one : (blob.getD offset 0).toNat &&& 0x80 = 0
  · rw [if_pos one, if_pos one]
  rw [if_neg one, if_neg one]
  by_cases two : (blob.getD offset 0).toNat &&& 0xC0 = 0x80
  · rw [if_pos two, if_pos two]
    by_cases short : blob.length ≤ offset + 1
    · rw [if_pos short, if_pos short]
    · rw [if_neg short, if_neg short, read_inside (by omega), Option.bind_some]
  rw [if_neg two, if_neg two]
  by_cases short : blob.length ≤ offset + 3
  · rw [if_pos short, if_pos short, ite_self, ite_self]
  · by_cases four : (blob.getD offset 0).toNat &&& 0xE0 = 0xC0
    · rw [if_neg fun both => both.2 four, if_neg short, if_pos four, if_neg short,
        read_inside (show offset + 1 < _ by omega), read_inside (show offset + 2 < _ by omega),
        read_inside (show offset + 3 < _ by omega)]
      rfl
    · have checks : decoder.checksLead = true := by
        simp only [one, two, four, or_self, false_iff] at lead
        exact plain.resolve_right (by omega)
      rw [if_pos ⟨checks, four⟩, if_neg four]

/-- The copy of the frame decodes four bytes with such a lead byte, where the others fail. -/
theorem decode_high (high : 0xE0 ≤ (blob.getD offset 0).toNat) (room : offset + 4 ≤ blob.length) :
    (∃ result, UintDecoder.frame.decode blob offset = some (.ok result)) ∧
      decodeCompressedUint blob offset = .error .badMetadata := by
  have lead := lead_byte _ (blob.getD offset 0).toNat_lt
  have notLow := mt lead.mp (by omega)
  simp only [not_or] at notLow
  obtain ⟨one, two, four⟩ := notLow
  have shift (count : Nat) (few : count ≤ 3) : advance offset count = offset + count :=
    Nat.mod_eq_of_lt (by omega)
  unfold UintDecoder.decode decodeCompressedUint
  simp only [show ¬ blob.length ≤ offset by omega, if_false, one, two, four,
    read_inside (show offset < blob.length by omega), Option.bind_eq_bind, Option.bind_some,
    UintDecoder.checksLead, Bool.false_eq_true, false_and, shift 1 (by decide), shift 2 (by decide),
    shift 3 (by decide), show ¬ blob.length ≤ offset + 3 by omega,
    read_inside (show offset + 1 < blob.length by omega),
    read_inside (show offset + 2 < blob.length by omega),
    read_inside (show offset + 3 < blob.length by omega)]
  exact ⟨⟨_, rfl⟩, trivial⟩

/-- The copies of the decoder agree unless four bytes begin with 0xE0 or more. -/
theorem decoders_agree_iff : DecodersAgree blob offset ↔
    (blob.getD offset 0).toNat < 0xE0 ∨ blob.length ≤ offset + 3 := by
  constructor
  · rintro ⟨result, same, -⟩
    by_contra apart
    obtain ⟨high, long⟩ := not_or.mp apart
    obtain ⟨⟨decoded, isFrame⟩, fails⟩ := decode_high small (Nat.le_of_not_lt high) (by omega)
    have signature := @decode_eq blob .signature offset small (.inl rfl)
    rw [same, fails] at signature
    rw [same, signature] at isFrame
    cases isFrame
  · intro plain
    refine ⟨_, fun decoder => decode_eq small (.inr plain), fun value bytes number spelled => ?_⟩
    exact decodeCompressedUint_spell (by omega) number spelled

end

theorem decoders_agree_two : DecodersAgree [0x81, 0x02] 0 :=
  (decoders_agree_iff (by decide)).mpr (.inl (by decide))

/-- Four bytes 0xE0, 0, 0, 1: the frame reads 1, the others fail. -/
theorem decoders_disagree : UintDecoder.frame.decode [0xE0, 0, 0, 1] 0 = some (.ok (1, 4)) ∧
    UintDecoder.signature.decode [0xE0, 0, 0, 1] 0 = some (.error .badMetadata) := by
  decide

end Zapada.Zaclr
