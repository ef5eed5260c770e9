import ExprCompiler.Charset.Common
import ExprCompiler.Proofs.Charset.Lawful

/-!
The ten sets are lawful. All of them can write ASCII and read it back.
-/

namespace ExprCompiler
namespace CommonCharset

section Ascii

variable {text : Bytes} {table : List Nat} {code : Nat} {byte : UInt8}

theorem encode_scalar_ascii {byte : UInt8} (small : byte.toNat < 0x80) :
    Text.encodeScalar byte.toNat = [byte] := by
  rw [Text.encodeScalar, if_pos small, UInt8.ofNat_toNat]

theorem encode_utf8_ascii (ascii : Text.Ascii text) : utf8.encode? text = some text := by
  rw [encode?, Text.glyphs_ascii ascii]
  congr 1
  induction text with
  | nil => rfl
  | cons byte rest induction =>
      obtain ⟨small, smallRest⟩ := (Text.ascii_cons byte rest).mp ascii
      rw [List.map_cons, List.flatMap_cons, induction smallRest, Text.asciiGlyph,
        encode_scalar_ascii small]
      rfl

theorem repair_ascii (ascii : Text.Ascii text) : repairUtf8 text = text := by
  induction text with
  | nil => unfold repairUtf8; rfl
  | cons lead rest induction =>
      obtain ⟨small, smallRest⟩ := (Text.ascii_cons lead rest).mp ascii
      have valid : (Text.asciiGlyph lead).isInvalid = false := by
        have other : lead.toNat ≠ Text.replacementCode := by
          unfold Text.replacementCode
          omega
        simp [Text.Glyph.isInvalid, Text.asciiGlyph, other]
      unfold repairUtf8
      simp only [Text.first_glyph_ascii rest small, valid, Bool.false_eq_true, if_false]
      change lead :: repairUtf8 rest = _
      rw [induction smallRest]

theorem encode_table {write : UInt8 → UInt8}
    (written : ∀ code < 0x80, byteOf? table code = some (write (UInt8.ofNat code)))
    (ascii : Text.Ascii text) :
    (Text.glyphs text).mapM (fun glyph => byteOf? table glyph.code) =
      some (text.flatMap fun byte => [write byte]) := by
  rw [Text.glyphs_ascii ascii]
  induction text with
  | nil => rfl
  | cons byte rest induction =>
      obtain ⟨small, smallRest⟩ := (Text.ascii_cons byte rest).mp ascii
      have found := written byte.toNat small
      rw [UInt8.ofNat_toNat] at found
      rw [List.map_cons, List.mapM_cons, induction smallRest, Text.asciiGlyph, found]
      rfl

theorem byte_read (short : table.length ≤ 0x100) (written : byteOf? table code = some byte) :
    table.getD byte.toNat Text.replacementCode = code := by
  unfold byteOf? at written
  split at written
  · cases written
  · obtain ⟨index, found, rfl⟩ := Option.map_eq_some_iff.mp written
    obtain ⟨inside, here, _⟩ := List.findIdx?_eq_some_iff_getElem.mp found
    rw [UInt8.toNat_ofNat_of_lt' (Nat.lt_of_lt_of_le inside short), List.getD_eq_getElem?_getD,
      List.getElem?_eq_getElem inside]
    exact eq_of_beq here

theorem byte_of_member (member : code ∈ table) (known : code < 0x80) :
    byteOf? table code = some ((byteOf? table code).getD 0) := by
  have other : code ≠ Text.replacementCode := by
    unfold Text.replacementCode
    omega
  obtain ⟨index, found⟩ : ∃ index, table.idxOf? code = some index := by
    rw [← Option.isSome_iff_exists, List.isSome_idxOf?]
    exact member
  rw [byteOf?, if_neg other, found, Option.map_some, Option.getD_some]

theorem decode_table {write : UInt8 → UInt8} (short : table.length ≤ 0x100)
    (written : ∀ code < 0x80, byteOf? table code = some (write (UInt8.ofNat code)))
    (ascii : Text.Ascii text) :
    ((text.flatMap fun byte => [write byte]).flatMap fun byte =>
      Text.encodeScalar (table.getD byte.toNat Text.replacementCode)) = text := by
  induction text with
  | nil => rfl
  | cons byte rest induction =>
      obtain ⟨small, smallRest⟩ := (Text.ascii_cons byte rest).mp ascii
      have found := byte_read short (written byte.toNat small)
      rw [UInt8.ofNat_toNat] at found
      rw [List.flatMap_cons, List.singleton_append, List.flatMap_cons, induction smallRest, found,
        encode_scalar_ascii small]
      rfl

/-- The tables of most sets start with the characters of ASCII. -/
def StartsAscii (table : List Nat) : Prop := ∀ code < 0x80, table[code]? = some code

theorem range_starts {count : Nat} (wide : 0x80 ≤ count) (upper : List Nat) :
    StartsAscii (List.range count ++ upper) := by
  intro code below
  rw [List.getElem?_append_left (by simpa using by omega), List.getElem?_range (by omega)]

theorem table_starts {charset : CommonCharset}
    (single : charset ∈ [latin1, latin9, windows1252, ascii, koi8r]) :
    StartsAscii charset.singleByteTable := by
  have whole {count : Nat} (wide : 0x80 ≤ count) : StartsAscii (List.range count) := by
    simpa using range_starts wide []
  cases charset with
  | latin1 => exact whole (by decide)
  | ascii => exact whole (by decide)
  | latin9 | windows1252 | koi8r => exact range_starts (by decide) _
  | _ => simp at single

theorem StartsAscii.byte_of (starts : StartsAscii table) :
    ∀ code < 0x80, byteOf? table code = some (UInt8.ofNat code) := by
  intro code below
  have known : code ≠ Text.replacementCode := by
    unfold Text.replacementCode
    omega
  have found : table.idxOf? code = some code := by
    obtain ⟨inside, here⟩ := List.getElem?_eq_some_iff.mp (starts code below)
    rw [List.idxOf?, List.findIdx?_eq_some_iff_getElem]
    refine ⟨inside, by simp [here], ?_⟩
    intro earlier before
    obtain ⟨_, there⟩ := List.getElem?_eq_some_iff.mp (starts earlier (by omega))
    simpa [there] using Nat.ne_of_lt before
  rw [byteOf?, if_neg known, found, Option.map_some]

theorem ibm037_bytes : ∀ code < 0x80, byteOf? ibm037All code =
    some ((byteOf? ibm037All (UInt8.ofNat code).toNat).getD 0) := by
  have held : ∀ code < 0x80, code ∈ ibm037All := by decide +kernel
  intro code below
  rw [UInt8.toNat_ofNat_of_lt' (Nat.lt_trans below (by decide))]
  exact byte_of_member (held code below) below

theorem table_short (charset : CommonCharset) : charset.singleByteTable.length ≤ 0x100 := by
  cases charset <;> decide +kernel

theorem unit_ascii (order : ByteOrder) {byte : UInt8} (small : byte.toNat < 0x80) :
    order.unitBytes byte.toNat =
      match order with
      | .bigEndian => [0, byte]
      | .littleEndian => [byte, 0] := by
  have high : byte.toNat / 256 = 0 := Nat.div_eq_of_lt (by omega)
  cases order <;> simp [ByteOrder.unitBytes, high]

theorem encode_utf16_ascii (order : ByteOrder) (ascii : Text.Ascii text) :
    encodeUtf16 order text = text.flatMap fun byte => order.unitBytes byte.toNat := by
  rw [encodeUtf16, Text.glyphs_ascii ascii, List.flatMap_map, List.flatMap_def, List.flatMap_def]
  refine congrArg List.flatten (List.map_congr_left fun byte member => ?_)
  have small := ascii byte member
  exact if_pos (show byte.toNat < 0x10000 by omega)

theorem decode_utf16_unit (order : ByteOrder) {byte : UInt8} (small : byte.toNat < 0x80)
    (rest : Bytes) :
    decodeUtf16 order (order.unitBytes byte.toNat ++ rest) = byte :: decodeUtf16 order rest := by
  have noHigh : isHighSurrogate byte.toNat = false := by
    simp only [isHighSurrogate, Bool.and_eq_false_iff, decide_eq_false_iff_not]
    omega
  have noLow : isLowSurrogate byte.toNat = false := by
    simp only [isLowSurrogate, Bool.and_eq_false_iff, decide_eq_false_iff_not]
    omega
  have big : ByteOrder.unit .bigEndian 0 byte = byte.toNat := by simp [ByteOrder.unit]
  have little : ByteOrder.unit .littleEndian byte 0 = byte.toNat := by simp [ByteOrder.unit]
  have written := encode_scalar_ascii small
  rw [unit_ascii order small]
  rcases rest with _ | ⟨third, _ | ⟨fourth, rest⟩⟩ <;> cases order <;>
    simp [decodeUtf16, big, little, noHigh, noLow, written]

theorem decode_utf16_ascii (order : ByteOrder) (ascii : Text.Ascii text) :
    decodeUtf16 order (text.flatMap fun byte => order.unitBytes byte.toNat) = text := by
  induction text with
  | nil => rfl
  | cons byte rest induction =>
      obtain ⟨small, smallRest⟩ := (Text.ascii_cons byte rest).mp ascii
      rw [List.flatMap_cons, decode_utf16_unit order small, induction smallRest]

end Ascii

/-- What stands in front of every text. -/
def mark : CommonCharset → Bytes
  | utf16 => [0xfe, 0xff]
  | _ => []

def asciiBytes : CommonCharset → UInt8 → Bytes
  | utf16, byte | utf16BE, byte => ByteOrder.bigEndian.unitBytes byte.toNat
  | utf16LE, byte => ByteOrder.littleEndian.unitBytes byte.toNat
  | ibm037, byte => [(byteOf? ibm037All byte.toNat).getD 0]
  | _, byte => [byte]

variable (charset : CommonCharset) {text : Bytes}

theorem encode_ascii (ascii : Text.Ascii text) :
    charset.encode? text = some (charset.mark ++ text.flatMap charset.asciiBytes) := by
  cases charset with
  | utf8 =>
      change utf8.encode? text = some (text.flatMap fun byte => [byte])
      rw [List.flatMap_singleton', encode_utf8_ascii ascii]
  | utf16 => exact congrArg (fun bytes => some (0xfe :: 0xff :: bytes)) (encode_utf16_ascii _ ascii)
  | utf16BE => exact congrArg some (encode_utf16_ascii _ ascii)
  | utf16LE => exact congrArg some (encode_utf16_ascii _ ascii)
  | ibm037 => exact encode_table ibm037_bytes ascii
  | latin1 | latin9 | windows1252 | ascii | koi8r =>
      exact encode_table (table_starts (by decide)).byte_of ascii

theorem decode_ascii (ascii : Text.Ascii text) :
    charset.decode (charset.mark ++ text.flatMap charset.asciiBytes) = text := by
  cases charset with
  | utf8 =>
      change repairUtf8 (text.flatMap fun byte => [byte]) = text
      rw [List.flatMap_singleton', repair_ascii ascii]
  | utf16 => exact decode_utf16_ascii _ ascii
  | utf16BE => exact decode_utf16_ascii _ ascii
  | utf16LE => exact decode_utf16_ascii _ ascii
  | ibm037 => exact decode_table (table_short ibm037) ibm037_bytes ascii
  | latin1 | latin9 | windows1252 | ascii | koi8r =>
      exact decode_table (table_short _) (table_starts (by decide)).byte_of ascii

theorem encodes_ascii : charset.toCharset.EncodesAscii := by
  intro text ascii
  simp only [toCharset, charset.encode_ascii ascii]
  exact ⟨_, rfl⟩

theorem keeps_plain {charset : CommonCharset} (unmarked : charset.mark = [])
    (same : charset.asciiBytes = fun byte => [byte]) : charset.toCharset.KeepsPlain := by
  intro text plain
  simp only [toCharset, charset.encode_ascii plain.ascii, unmarked, same, List.nil_append,
    List.flatMap_singleton']

theorem utf8_keeps_plain : utf8.toCharset.KeepsPlain := keeps_plain rfl rfl

theorem writes_foreign {charset : CommonCharset}
    (starts : ∀ letter : UInt8, 0x61 ≤ letter.toNat → letter.toNat ≤ 0x7a →
      IsForeign (charset.mark ++ charset.asciiBytes letter)) :
    charset.toCharset.WritesForeign := by
  intro letter rest bytes above below plain encoded
  simp only [toCharset, charset.encode_ascii plain.ascii, Except.ok.injEq] at encoded
  rw [← encoded, List.flatMap_cons, ← List.append_assoc]
  exact (starts letter above below).append _

theorem keeps_or_foreign :
    charset.toCharset.KeepsPlain ∨ charset.toCharset.WritesForeign := by
  have small {letter : UInt8} (below : letter.toNat ≤ 0x7a) : letter.toNat < 0x80 := by omega
  cases charset with
  | utf16 =>
      exact .inr (writes_foreign fun letter _ _ => ⟨[], 0xfe, _, rfl, by simp, by decide⟩)
  | utf16BE =>
      refine .inr (writes_foreign fun letter _ below => ⟨[], 0, [letter], ?_, by simp, by decide⟩)
      exact unit_ascii .bigEndian (small below)
  | utf16LE =>
      refine .inr (writes_foreign fun letter above below => ⟨[letter], 0, [], ?_, ?_, by decide⟩)
      · exact unit_ascii .littleEndian (small below)
      · simp [Text.isAsciiLetter, above, below]
  | ibm037 =>
      have letters : ∀ code < 0x7b, 0x61 ≤ code →
          isForeignByte ((byteOf? ibm037All code).getD 0) = true := by decide +kernel
      refine .inr (writes_foreign fun letter above below => ⟨[], _, [], rfl, by simp, ?_⟩)
      exact letters letter.toNat (by omega) above
  | _ => exact .inl (keeps_plain rfl rfl)

theorem lawful : charset.toCharset.Lawful where
  decode_encode := by
    intro text bytes plain encoded
    simp only [toCharset, charset.encode_ascii plain.ascii, Except.ok.injEq] at encoded
    rw [← encoded]
    exact charset.decode_ascii plain.ascii
  keeps_or_foreign := charset.keeps_or_foreign

theorem find_canonical : find? (ExprCompiler.utf8 charset.canonicalName) = some charset := by
  cases charset <;> decide +kernel

end CommonCharset

namespace CharsetRegistry

theorem common_resolved {name : Bytes} {charset : Charset}
    (resolved : common.resolve name = .ok charset) :
    ∃ set : CommonCharset, charset = set.toCharset := by
  unfold resolve at resolved
  dsimp only at resolved
  split at resolved
  · rename_i found
    cases resolved
    obtain ⟨set, _, same⟩ := Option.map_eq_some_iff.mp found
    exact ⟨set, same.symm⟩
  · cases resolved

theorem resolve_canonical (set : CommonCharset) :
    common.resolve (utf8 set.canonicalName) = .ok set.toCharset := by
  have named : utf8 set.canonicalName ≠ [] := by cases set <;> decide
  simp only [resolve, if_neg named, common, set.find_canonical, Option.map_some]

theorem common_lawful : common.Lawful where
  sets := by
    intro name charset resolved
    obtain ⟨set, rfl⟩ := common_resolved resolved
    exact set.lawful
  canonical := by
    intro name charset resolved
    obtain ⟨set, rfl⟩ := common_resolved resolved
    exact resolve_canonical set

end CharsetRegistry
end ExprCompiler
