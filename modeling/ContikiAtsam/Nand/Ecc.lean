import ContikiAtsam.Base.Hamming
import ContikiAtsam.Base.Loop
import ContikiAtsam.Base.Memory

/-!
# Hamming codes in software

`ecc-sw.c`. Every 256 bytes of data get a code of three bytes: two parities for each bit of a byte's address and for each bit of a bit's address in its byte, interleaved and inverted. Checking computes the code again and looks at how many bits of it have changed: none, one, eleven, or any other number.
-/

namespace ContikiAtsam.Nand

/-- `HAMMING_ERROR_SINGLE_BIT`. -/
def hammingErrorSingleBit : UInt32 := 1

/-- `HAMMING_ERROR_ECC`. -/
def hammingErrorEcc : UInt32 := 2

/-- `HAMMING_ERROR_MULTIPLE_BITS`. -/
def hammingErrorMultipleBits : UInt32 := 3

/-- The loop of `count_bits_in_byte`. -/
def countBitsFrom (byte : UInt8) (count : UInt32) : UInt32 :=
  if h : byte > 0 then countBitsFrom (byte >>> 1) (if byte &&& 1 ≠ 0 then count + 1 else count) else count
termination_by byte.toNat
decreasing_by
  have hpos : 0 < byte.toNat := UInt8.lt_iff_toNat_lt.mp h
  have hhalf : (byte >>> 1).toNat = byte.toNat / 2 := by
    rw [UInt8.toNat_shiftRight, Nat.shiftRight_eq_div_pow]
    rfl
  omega

def countBitsInByte (byte : UInt8) : UInt32 := countBitsFrom byte 0

/-- The three bytes of a code. -/
structure Code256 where
  line1 : UInt8
  line2 : UInt8
  column : UInt8
  deriving DecidableEq

def Code256.toList (c : Code256) : List UInt8 := [c.line1, c.line2, c.column]

def countBitsInCode256 (c : Code256) : UInt32 :=
  countBitsInByte c.line1 + countBitsInByte c.line2 + countBitsInByte c.column

/-- The variables of `compute256` in its first loop. -/
structure LineSums where
  columnSum : UInt8
  evenLineCode : UInt8
  oddLineCode : UInt8

def lineTurn (m : Memory) (data : Nat) (s : LineSums) (i : Nat) : LineSums :=
  let s := { s with columnSum := s.columnSum ^^^ m (data + i) }
  if countBitsInByte (m (data + i)) &&& 1 = 1 then
    { s with evenLineCode := s.evenLineCode ^^^ UInt8.ofNat (255 - i)
             oddLineCode := s.oddLineCode ^^^ UInt8.ofNat i }
  else s

def lineSums (m : Memory) (data : Nat) : LineSums := (List.range 256).foldl (lineTurn m data) ⟨0, 0, 0⟩

/-- The variables of the second loop. -/
structure ColumnSums where
  columnSum : UInt8
  evenColumnCode : UInt8
  oddColumnCode : UInt8

def columnTurn (s : ColumnSums) (i : Nat) : ColumnSums :=
  let s := if s.columnSum &&& 1 ≠ 0 then
      { s with evenColumnCode := s.evenColumnCode ^^^ UInt8.ofNat (7 - i)
               oddColumnCode := s.oddColumnCode ^^^ UInt8.ofNat i }
    else s
  { s with columnSum := s.columnSum >>> 1 }

def columnSums (columnSum : UInt8) : ColumnSums := (List.range 8).foldl columnTurn ⟨columnSum, 0, 0⟩

/-- The variables of the third loop. -/
structure Layout where
  code : Code256
  evenLineCode : UInt8
  oddLineCode : UInt8
  evenColumnCode : UInt8
  oddColumnCode : UInt8

/-- A byte of the code moved up for two more bits: the highest ones, seen through a mask, of an odd and an even parity. -/
def pushBits (byte odd even mask : UInt8) : UInt8 :=
  let byte := byte <<< 2
  let byte := if odd &&& mask ≠ 0 then byte ||| 2 else byte
  if even &&& mask ≠ 0 then byte ||| 1 else byte

def layoutTurn (s : Layout) : Layout where
  code :=
    { line1 := pushBits s.code.line1 s.oddLineCode s.evenLineCode 0x80
      line2 := pushBits s.code.line2 s.oddLineCode s.evenLineCode 0x08
      column := pushBits s.code.column s.oddColumnCode s.evenColumnCode 0x04 }
  evenLineCode := s.evenLineCode <<< 1
  oddLineCode := s.oddLineCode <<< 1
  evenColumnCode := s.evenColumnCode <<< 1
  oddColumnCode := s.oddColumnCode <<< 1

/-- `compute256`, with the code as its result. -/
def compute256 (m : Memory) (data : Nat) : Code256 :=
  let line := lineSums m data
  let column := columnSums line.columnSum
  let s := (List.range 4).foldl (fun s _ => layoutTurn s)
    ⟨⟨0, 0, 0⟩, line.evenLineCode, line.oddLineCode, column.evenColumnCode, column.oddColumnCode⟩
  ⟨~~~ s.code.line1, ~~~ s.code.line2, ~~~ s.code.column⟩

/-- The index of the wrong byte, from the correction code. -/
def wrongByte (c : Code256) : UInt8 :=
  let byte : UInt8 := c.line1 &&& 0x80
  let byte := byte ||| ((c.line1 <<< 1) &&& 0x40)
  let byte := byte ||| ((c.line1 <<< 2) &&& 0x20)
  let byte := byte ||| ((c.line1 <<< 3) &&& 0x10)
  let byte := byte ||| ((c.line2 >>> 4) &&& 0x08)
  let byte := byte ||| ((c.line2 >>> 3) &&& 0x04)
  let byte := byte ||| ((c.line2 >>> 2) &&& 0x02)
  byte ||| ((c.line2 >>> 1) &&& 0x01)

/-- The index of the wrong bit in it. -/
def wrongBit (c : Code256) : UInt8 :=
  let bit : UInt8 := (c.column >>> 5) &&& 0x04
  let bit := bit ||| ((c.column >>> 4) &&& 0x02)
  bit ||| ((c.column >>> 3) &&& 0x01)

/-- The exclusive or of two codes, byte by byte. -/
def Code256.xor (c c' : Code256) : Code256 := ⟨c.line1 ^^^ c'.line1, c.line2 ^^^ c'.line2, c.column ^^^ c'.column⟩

def loadCode (codes : Memory) (code : Nat) : Code256 := ⟨codes code, codes (code + 1), codes (code + 2)⟩

def verify256 (m : Memory) (data : Nat) (codes : Memory) (code : Nat) : UInt32 × Memory :=
  let correctionCode := (compute256 m data).xor (loadCode codes code)
  if correctionCode.line1 = 0 ∧ correctionCode.line2 = 0 ∧ correctionCode.column = 0 then (0, m)
  else if countBitsInCode256 correctionCode = 11 then
    let byte := data + (wrongByte correctionCode).toNat
    (hammingErrorSingleBit, m.store byte [m byte ^^^ 1 <<< wrongBit correctionCode])
  else if countBitsInCode256 correctionCode = 1 then (hammingErrorEcc, m)
  else (hammingErrorMultipleBits, m)

/-- The variables of `hamming_compute_256x`, with the memory that the codes are written to. -/
structure ComputeState where
  data : Nat
  size : UInt32
  codes : Memory
  code : Nat

def computeTurn (m : Memory) (s : ComputeState) : Turn ComputeState Memory :=
  if s.size > 0 then
    .again ⟨s.data + 256, s.size - 256, s.codes.store s.code (compute256 m s.data).toList, s.code + 3⟩
  else .leave s.codes

def hammingCompute256x (fuel : Nat) (m : Memory) (data : Nat) (size : UInt32) (codes : Memory) (code : Nat) :
    Option Memory :=
  Loop.run (computeTurn m) fuel ⟨data, size, codes, code⟩

/-- The variables of `hamming_verify_256x`, with the memory that holds the data. -/
structure VerifyState where
  m : Memory
  data : Nat
  size : UInt32
  code : Nat
  result : UInt32

def verifyTurn (codes : Memory) (s : VerifyState) : Turn VerifyState (UInt32 × Memory) :=
  if s.size > 0 then
    let (error, m) := verify256 s.m s.data codes s.code
    if error = hammingErrorSingleBit then
      .again ⟨m, s.data + 256, s.size - 256, s.code + 3, hammingErrorSingleBit⟩
    else if error ≠ 0 then .leave (error, m)
    else .again ⟨m, s.data + 256, s.size - 256, s.code + 3, s.result⟩
  else .leave (s.result, s.m)

def hammingVerify256x (fuel : Nat) (m : Memory) (data : Nat) (size : UInt32) (codes : Memory) (code : Nat) :
    Option (UInt32 × Memory) :=
  Loop.run (verifyTurn codes) fuel ⟨m, data, size, code, 0⟩

end ContikiAtsam.Nand
