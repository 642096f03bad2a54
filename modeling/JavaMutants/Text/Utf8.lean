/-!
# UTF-8

Texts as bytes. `encode` gives the bytes of a text, and `decode` reads
them back or says where and how they stop making sense: the sequence that
begins there is cut off by the end, or its first few bytes can begin no
character.
-/

namespace JavaMutants.Text

/-- **Why bytes are no text.** -/
structure Utf8Fault where
  /-- The byte at which the sequence begins. -/
  index : Nat
  /-- How many bytes of it are of no use; none are, if only the rest of
  the sequence is lacking. -/
  size : Option Nat
deriving DecidableEq, Repr

/-- A fault in words. -/
def Utf8Fault.message (f : Utf8Fault) : String :=
  match f.size with
  | some n =>
    "invalid utf-8 sequence of " ++ toString n ++ " bytes from index " ++ toString f.index
  | none => "incomplete utf-8 byte sequence from index " ++ toString f.index

/-- The bytes of a text. -/
def encode (text : String) : List UInt8 := text.toList.flatMap String.utf8EncodeChar

/-- How many bytes the sequence has that a byte begins, if it can begin
one. -/
def sequenceSize? (b : UInt8) : Option Nat :=
  if b < 0x80 then some 1
  else if 0xC2 ≤ b && b ≤ 0xDF then some 2
  else if 0xE0 ≤ b && b ≤ 0xEF then some 3
  else if 0xF0 ≤ b && b ≤ 0xF4 then some 4
  else none

/-- Whether a byte continues a sequence. -/
def isContinuation (b : UInt8) : Bool := 0x80 ≤ b && b ≤ 0xBF

/-- Whether a byte can be the second of a sequence. This leaves out what
a shorter sequence would say, surrogates, and what lies beyond the last
character. -/
def canFollow (first second : UInt8) : Bool :=
  isContinuation second &&
    (if first == 0xE0 then 0xA0 ≤ second
    else if first == 0xED then second ≤ 0x9F
    else if first == 0xF0 then 0x90 ≤ second
    else if first == 0xF4 then second ≤ 0x8F
    else true)

/-- The character of a first byte, of which some bits count, and the
bytes after it. -/
def characterOf (first : UInt8) (bits : Nat) (others : List UInt8) : Char :=
  Char.ofNat (others.foldl (fun n b => n * 64 + b.toNat % 64) (first.toNat % Nat.pow 2 bits))

/-- Reads bytes from an index on. -/
def decodeFrom (index : Nat) : List UInt8 → Except Utf8Fault (List Char)
  | [] => .ok []
  | a :: rest =>
    match sequenceSize? a with
    | some 1 => (decodeFrom (index + 1) rest).map (characterOf a 7 [] :: ·)
    | some 2 =>
      match rest with
      | [] => .error ⟨index, none⟩
      | b :: rest =>
        if canFollow a b then (decodeFrom (index + 2) rest).map (characterOf a 5 [b] :: ·)
        else .error ⟨index, some 1⟩
    | some 3 =>
      match rest with
      | [] => .error ⟨index, none⟩
      | b :: rest =>
        if canFollow a b then
          match rest with
          | [] => .error ⟨index, none⟩
          | c :: rest =>
            if isContinuation c then
              (decodeFrom (index + 3) rest).map (characterOf a 4 [b, c] :: ·)
            else .error ⟨index, some 2⟩
        else .error ⟨index, some 1⟩
    | some _ =>
      match rest with
      | [] => .error ⟨index, none⟩
      | b :: rest =>
        if canFollow a b then
          match rest with
          | [] => .error ⟨index, none⟩
          | c :: rest =>
            if isContinuation c then
              match rest with
              | [] => .error ⟨index, none⟩
              | d :: rest =>
                if isContinuation d then
                  (decodeFrom (index + 4) rest).map (characterOf a 3 [b, c, d] :: ·)
                else .error ⟨index, some 3⟩
            else .error ⟨index, some 2⟩
        else .error ⟨index, some 1⟩
    | none => .error ⟨index, some 1⟩

/-- **The text that bytes stand for**, or why there is none. -/
def decode (bytes : List UInt8) : Except Utf8Fault String :=
  (decodeFrom 0 bytes).map String.ofList

end JavaMutants.Text
