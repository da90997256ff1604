import EntryRef.Text.Decoding

/-!
# UTF-8

`Utf8.encode` writes a text in UTF-8, and `Utf8.next` is the decoder for it. The decoder accepts the
well-formed sequences alone: no overlong forms, no surrogates, nothing above U+10FFFF. A segment
that is not well formed is as long as its part that could still have become a character, at least
one byte.
-/

namespace EntryRef.Text.Utf8

/-- The bytes of a text. -/
def encode (s : Text) : Bytes := s.flatMap String.utf8EncodeChar

/-- Is `c` a byte that continues a character? -/
def continues (c : UInt8) : Bool := 0x80 ≤ c && c < 0xc0

/-- May `c` follow the first byte `b` of a character of three or four bytes? Four first bytes admit
fewer second bytes than the others, since the rest would be overlong, a surrogate or too large. -/
def seconds (b c : UInt8) : Bool :=
  continues c &&
    (if b = 0xe0 then 0xa0 ≤ c
     else if b = 0xed then c < 0xa0
     else if b = 0xf0 then 0x90 ≤ c
     else if b = 0xf4 then c < 0x90
     else true)

/-- The payload of a continuing byte. -/
def payload (c : UInt8) : Nat := c.toNat - 0x80

/-- The decoder. -/
def next : Decoder := fun b r =>
  if b < 0x80 then ⟨1, .ok (Char.ofNat b.toNat)⟩
  else if b < 0xc2 then ⟨1, .error .startByte⟩
  else if b < 0xe0 then
    match r with
    | [] => ⟨1, .error .endOfData⟩
    | c :: _ =>
      if continues c then ⟨2, .ok (Char.ofNat ((b.toNat - 0xc0) * 64 + payload c))⟩
      else ⟨1, .error .continuation⟩
  else if b < 0xf0 then
    match r with
    | [] => ⟨1, .error .endOfData⟩
    | c :: r =>
      if !seconds b c then ⟨1, .error .continuation⟩
      else match r with
        | [] => ⟨2, .error .endOfData⟩
        | d :: _ =>
          if continues d then
            ⟨3, .ok (Char.ofNat (((b.toNat - 0xe0) * 64 + payload c) * 64 + payload d))⟩
          else ⟨2, .error .continuation⟩
  else if b < 0xf5 then
    match r with
    | [] => ⟨1, .error .endOfData⟩
    | c :: r =>
      if !seconds b c then ⟨1, .error .continuation⟩
      else match r with
        | [] => ⟨2, .error .endOfData⟩
        | d :: r =>
          if !continues d then ⟨2, .error .continuation⟩
          else match r with
            | [] => ⟨3, .error .endOfData⟩
            | e :: _ =>
              if continues e then
                ⟨4, .ok (Char.ofNat
                  ((((b.toNat - 0xf0) * 64 + payload c) * 64 + payload d) * 64 + payload e))⟩
              else ⟨3, .error .continuation⟩
  else ⟨1, .error .startByte⟩

/-- The text that a byte string stands for, or its first fault. -/
def decode (bs : Bytes) : Except DecodeFault Text := strict "utf-8" next 0 bs

/-- The text that a byte string stands for, with U+FFFD where it stands for nothing. -/
def decodeLossy (bs : Bytes) : Text := lossy next bs

end EntryRef.Text.Utf8
