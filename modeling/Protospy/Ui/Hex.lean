import Mathlib.Algebra.Order.Floor.Div
import Mathlib.Data.Rat.Floor
import Protospy.Lib.Ascii
import Protospy.Lib.Lines
import Protospy.Lib.Numerals
import Protospy.Lib.Table
import Protospy.Ui.Utf8

/-!
# The hex dump of a body (`hex.ts`)

The dump has a line for every sixteen bytes, with their offset, their values and their
printable characters. The bytes can be read back from the values.
-/

namespace Protospy

def hexBytesPerRow : Nat := 16

structure HexRow where
  offset : Text
  hex : Text
  ascii : Text
  deriving DecidableEq

def hexRowCount (len : Nat) : Nat := len ⌈/⌉ hexBytesPerRow

def toHexByte (b : UInt8) : Text := (Nat.toDigits 16 b.toNat).leftpad 2 '0'

/-- A byte that is not printable is shown as a dot. -/
def asciiByte (b : UInt8) : Char := if 0x20 ≤ b ∧ b ≤ 0x7e then Char.ofNat b.toNat else '.'

def hexRow (bytes : Bytes) (rowIndex : Nat) : HexRow :=
  let start := rowIndex * hexBytesPerRow
  let stop := min (start + hexBytesPerRow) bytes.length
  let shown := (bytes.take stop).drop start
  let hexParts := (shown.map toHexByte).rightpad hexBytesPerRow [' ', ' ']
  ⟨(Nat.toDigits 16 start).leftpad 8 '0', [' '].intercalate hexParts, shown.map asciiByte⟩

def HexRow.line (row : HexRow) : Text :=
  row.offset ++ "  ".toList ++ row.hex ++ "  |".toList ++ row.ascii ++ "|".toList

def hexDumpText (bytes : Bytes) : Text :=
  ['\n'].intercalate ((List.range (hexRowCount bytes.length)).map fun r => (hexRow bytes r).line)

/-! ## Reading a dump -/

def dumpLines (text : Text) : List Text := if text = [] then [] else text.splitOn '\n'

/-- The offset stands before the first space. -/
def offsetColumn (line : Text) : Text := line.takeWhile (· ≠ ' ')

/-- The hex column ends two spaces before the first bar. -/
def hexColumn (line : Text) : Text :=
  (((line.dropWhile (· ≠ ' ')).drop 2).takeWhile (· ≠ '|')).dropLast.dropLast

/-- A cell of two spaces stands for no byte. -/
def readHexCell (cell : Text) : Option UInt8 :=
  if cell = [' ', ' '] then none else some (UInt8.ofNat (Numerals.ofDigits 16 cell))

def readHexColumn (column : Text) : Bytes :=
  (Table.cells 2 hexBytesPerRow column).filterMap readHexCell

/-! ## One byte -/

theorem length_toHexByte (b : UInt8) : (toHexByte b).length = 2 := by
  have short : (Nat.toDigits 16 b.toNat).length ≤ 2 :=
    (Nat.length_toDigits_le_iff (by omega) (by omega)).mpr b.toNat_lt
  rw [toHexByte, List.length_leftpad]
  omega

/-- The digits of a numeral and the zeros before it are neither spaces nor bars nor
line feeds. -/
theorem mem_padded {width n : Nat} {c : Char}
    (member : c ∈ (Nat.toDigits 16 n).leftpad width '0') : c ≠ ' ' ∧ c ≠ '|' ∧ c ≠ '\n' := by
  have each : ∀ d < 16, Nat.digitChar d ≠ ' ' ∧ Nat.digitChar d ≠ '|' ∧ Nat.digitChar d ≠ '\n' := by
    decide
  rw [List.leftpad] at member
  rcases List.mem_append.mp member with zero | digit
  · rw [List.eq_of_mem_replicate zero]
    exact each 0 (by omega)
  · obtain ⟨d, small, rfl⟩ := Numerals.exists_digit_of_mem_toDigits (by omega) n c digit
    exact each d small

theorem readHexCell_toHexByte (b : UInt8) : readHexCell (toHexByte b) = some b := by
  have noPadding : toHexByte b ≠ [' ', ' '] := by
    intro same
    have member : ' ' ∈ toHexByte b := same ▸ List.mem_cons_self
    exact (mem_padded member).1 rfl
  rw [readHexCell, if_neg noPadding, toHexByte, Numerals.ofDigits_leftpad,
    Numerals.ofDigits_toDigits (by omega) (by omega), UInt8.ofNat_toNat]

theorem asciiByte_ne_lineFeed (b : UInt8) : asciiByte b ≠ '\n' := by
  rw [asciiByte]
  split
  · rename_i printable
    refine Utf8Decoder.ofNat_ne_lineFeed fun same => ?_
    have low := UInt8.le_iff_toNat_le.mp printable.1
    rw [same] at low
    exact absurd low (by decide)
  · decide

/-! ## One row -/

/-- The parts of the hex column of row `r`. -/
def hexParts (bytes : Bytes) (r : Nat) : List Text :=
  ((Table.row hexBytesPerRow r bytes).map toHexByte).rightpad hexBytesPerRow [' ', ' ']

theorem hexRow_eq (bytes : Bytes) (r : Nat) :
    hexRow bytes r = ⟨(Nat.toDigits 16 (r * hexBytesPerRow)).leftpad 8 '0',
      [' '].intercalate (hexParts bytes r), (Table.row hexBytesPerRow r bytes).map asciiByte⟩ := by
  have shown : (bytes.take (min (r * hexBytesPerRow + hexBytesPerRow) bytes.length)).drop
      (r * hexBytesPerRow) = Table.row hexBytesPerRow r bytes := by
    rw [← List.take_eq_take_min, List.drop_take, Nat.add_sub_cancel_left, Table.row]
  rw [hexRow]
  simp only [shown, hexParts]

theorem length_hexParts (bytes : Bytes) (r : Nat) :
    (hexParts bytes r).length = hexBytesPerRow := by
  have bound := Table.length_row_le hexBytesPerRow r bytes
  rw [hexParts, List.length_rightpad, List.length_map]
  omega

theorem mem_hexParts {bytes : Bytes} {r : Nat} {cell : Text} (member : cell ∈ hexParts bytes r) :
    cell = [' ', ' '] ∨ ∃ b, cell = toHexByte b := by
  rw [hexParts, List.rightpad] at member
  rcases List.mem_append.mp member with byte | padding
  · obtain ⟨b, -, rfl⟩ := List.mem_map.mp byte
    exact .inr ⟨b, rfl⟩
  · exact .inl (List.eq_of_mem_replicate padding)

theorem hexParts_even (bytes : Bytes) (r : Nat) : ∀ cell ∈ hexParts bytes r, cell.length = 2 := by
  intro cell member
  rcases mem_hexParts member with rfl | ⟨b, rfl⟩
  · rfl
  · exact length_toHexByte b

theorem length_hex (bytes : Bytes) (r : Nat) : (hexRow bytes r).hex.length = 47 := by
  rw [hexRow_eq, Table.length_line (hexParts_even bytes r), length_hexParts]
  rfl

theorem readHexColumn_hex (bytes : Bytes) (r : Nat) :
    readHexColumn (hexRow bytes r).hex = Table.row hexBytesPerRow r bytes := by
  have cells := Table.cells_line (hexParts_even bytes r) ' '
  rw [length_hexParts] at cells
  have bytes' (row : Bytes) : (row.map toHexByte).filterMap readHexCell = row := by
    rw [List.filterMap_map]
    exact (List.filterMap_congr fun b _ => readHexCell_toHexByte b).trans List.filterMap_some
  have padding (n : Nat) : (List.replicate n ([' ', ' '] : Text)).filterMap readHexCell = [] :=
    List.filterMap_replicate_of_none rfl
  rw [hexRow_eq, readHexColumn, cells, hexParts, List.rightpad, List.filterMap_append, bytes',
    padding, List.append_nil]

/-! ## One line -/

theorem mem_offset {bytes : Bytes} {r : Nat} {c : Char} (member : c ∈ (hexRow bytes r).offset) :
    c ≠ ' ' ∧ c ≠ '|' ∧ c ≠ '\n' := by
  rw [hexRow_eq] at member
  exact mem_padded member

theorem mem_hex {bytes : Bytes} {r : Nat} {c : Char} (member : c ∈ (hexRow bytes r).hex) :
    c ≠ '|' ∧ c ≠ '\n' := by
  have space : (' ' : Char) ≠ '|' ∧ (' ' : Char) ≠ '\n' := by decide
  rw [hexRow_eq] at member
  rcases Ascii.mem_intercalate member with separator | ⟨cell, part, inside⟩
  · rw [List.mem_singleton.mp separator]
    exact space
  · rcases mem_hexParts part with rfl | ⟨b, rfl⟩
    · have blank : c = ' ' := by simpa using inside
      rw [blank]
      exact space
    · exact (mem_padded inside).2

theorem HexRow.line_eq (row : HexRow) : row.line =
    row.offset ++ ' ' :: (' ' :: ((row.hex ++ [' ', ' ']) ++ '|' :: (row.ascii ++ ['|']))) := by
  simp [HexRow.line]

theorem offsetColumn_line (bytes : Bytes) (r : Nat) :
    offsetColumn (hexRow bytes r).line = (hexRow bytes r).offset := by
  have noSpace : ' ' ∉ (hexRow bytes r).offset := fun member => (mem_offset member).1 rfl
  rw [offsetColumn, HexRow.line_eq]
  exact (Lines.split_at_mark noSpace _).1

theorem hexColumn_line (bytes : Bytes) (r : Nat) :
    hexColumn (hexRow bytes r).line = (hexRow bytes r).hex := by
  have noSpace : ' ' ∉ (hexRow bytes r).offset := fun member => (mem_offset member).1 rfl
  have noBar : '|' ∉ (hexRow bytes r).hex ++ [' ', ' '] := by
    intro member
    rcases List.mem_append.mp member with inside | last
    · exact (mem_hex inside).1 rfl
    · simp at last
  rw [hexColumn, HexRow.line_eq, ← List.drop_drop (i := 1) (j := 1),
    (Lines.split_at_mark noSpace _).2, List.drop_one, List.tail_cons,
    (Lines.split_at_mark noBar _).1, List.append_cons, List.dropLast_concat, List.dropLast_concat]

theorem lineFeed_notMem_line (bytes : Bytes) (r : Nat) : '\n' ∉ (hexRow bytes r).line := by
  intro member
  rw [HexRow.line_eq] at member
  simp only [List.mem_append, List.mem_cons, List.not_mem_nil, or_false] at member
  have noAscii : '\n' ∉ (hexRow bytes r).ascii := by
    intro inside
    rw [hexRow_eq] at inside
    obtain ⟨b, -, same⟩ := List.mem_map.mp inside
    exact asciiByte_ne_lineFeed b same
  rcases member with offset | space | space | (hex | space | space) | bar | ascii | bar
  · exact (mem_offset offset).2.2 rfl
  · cases space
  · cases space
  · exact (mem_hex hex).2 rfl
  · cases space
  · cases space
  · cases bar
  · exact noAscii ascii
  · cases bar

/-! ## The dump -/

theorem hexRowCount_eq_ceil (len : Nat) : hexRowCount len = ⌈(len : ℚ) / 16⌉₊ := by
  refine eq_of_forall_ge_iff fun c => ?_
  rw [hexRowCount, ceilDiv_le_iff_le_mul (by decide), Nat.ceil_le, div_le_iff₀ (by norm_num),
    hexBytesPerRow, Nat.mul_comm]
  exact_mod_cast Iff.rfl

theorem length_le_hexRowCount (len : Nat) : len ≤ hexRowCount len * hexBytesPerRow := by
  rw [Nat.mul_comm]
  exact (ceilDiv_le_iff_le_mul (by decide)).mp (Nat.le_refl (hexRowCount len))

theorem dumpLines_hexDumpText (bytes : Bytes) : dumpLines (hexDumpText bytes) =
    (List.range (hexRowCount bytes.length)).map fun r => (hexRow bytes r).line := by
  rw [hexDumpText]
  generalize hexRowCount bytes.length = n
  by_cases none : n = 0
  · rw [none]
    rfl
  · have nonempty : (List.range n).map (fun r => (hexRow bytes r).line) ≠ [] := by
      simpa using none
    have split := List.splitOn_intercalate '\n' (fun line member => by
      obtain ⟨r, -, rfl⟩ := List.mem_map.mp member
      exact lineFeed_notMem_line bytes r) nonempty
    have written : ['\n'].intercalate ((List.range n).map fun r => (hexRow bytes r).line) ≠ [] := by
      intro empty
      rw [empty] at split
      have first : (hexRow bytes 0).line ∈ (List.range n).map fun r => (hexRow bytes r).line :=
        List.mem_map_of_mem (List.mem_range.mpr (Nat.pos_of_ne_zero none))
      rw [← split, List.splitOn_nil, List.mem_singleton, HexRow.line_eq] at first
      simp at first
    rw [dumpLines, if_neg written, split]

/-- Every byte can be read back from the hex columns of the dump. They all have one
width, and the offset of row `r` is that of its first byte. -/
theorem hexDumpText_lossless (bytes : Bytes) :
    let lines := dumpLines (hexDumpText bytes)
    lines.flatMap (fun line => readHexColumn (hexColumn line)) = bytes ∧
      (∀ line ∈ lines, (hexColumn line).length = 47) ∧
      (∀ (r : Nat) (line : Text), lines[r]? = some line →
        Numerals.ofDigits 16 (offsetColumn line) = 16 * r) ∧
      lines.length = ⌈(bytes.length : ℚ) / 16⌉₊ := by
  intro lines
  have rows : lines = (List.range (hexRowCount bytes.length)).map fun r => (hexRow bytes r).line :=
    dumpLines_hexDumpText bytes
  rw [rows]
  refine ⟨?_, ?_, ?_, ?_⟩
  · rw [List.flatMap_map]
    simp only [hexColumn_line, readHexColumn_hex]
    exact Table.flatMap_row_eq_self (length_le_hexRowCount bytes.length)
  · intro line member
    obtain ⟨r, -, rfl⟩ := List.mem_map.mp member
    rw [hexColumn_line, length_hex]
  · intro r line at_
    rw [List.getElem?_map] at at_
    obtain ⟨r', here, rfl⟩ := Option.map_eq_some_iff.mp at_
    obtain ⟨inside, same⟩ := List.getElem?_eq_some_iff.mp here
    rw [List.getElem_range] at same
    rw [← same, offsetColumn_line, hexRow_eq, Numerals.ofDigits_leftpad,
      Numerals.ofDigits_toDigits (by omega) (by omega), Nat.mul_comm, hexBytesPerRow]
  · rw [List.length_map, List.length_range, hexRowCount_eq_ceil]

end Protospy
