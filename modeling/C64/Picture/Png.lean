import C64.Picture

/-!
# PNG files

A PNG file is a mark and a sequence of chunks, each with a length, a name and a checksum. The
pixels are a stream of rows, every row behind a byte that names its filter; here no row is
filtered, and the stream is packed into stored blocks, which compress nothing.
-/

namespace C64.Picture

/-- The four bytes of a number, the highest first. -/
def bigEndian (n : UInt32) : ByteArray :=
  ⟨#[(n >>> 24).toUInt8, (n >>> 16).toUInt8, (n >>> 8).toUInt8, n.toUInt8]⟩

/-- The two bytes of a number, the lowest first. -/
def littleEndian (n : UInt16) : ByteArray := ⟨#[n.toUInt8, (n >>> 8).toUInt8]⟩

/-- One bit of the cyclic checksum. -/
def crcBit (crc : UInt32) : UInt32 :=
  crc >>> 1 ^^^ (if crc &&& 1 = 1 then 0xEDB88320 else 0)

/-- The cyclic checksum of a chunk. -/
def crc (bytes : ByteArray) : UInt32 :=
  ~~~(bytes.foldl (fun crc b => Nat.repeat crcBit 8 (crc ^^^ b.toUInt32)) 0xFFFFFFFF)

/-- The checksum of a packed stream: two sums modulo the largest prime below `2 ^ 16`. -/
def adler (bytes : ByteArray) : UInt32 :=
  let (a, b) := bytes.foldl (fun (a, b) byte =>
    let a := (a + byte.toUInt32) % 65521
    (a, (b + a) % 65521)) (1, 0)
  b <<< 16 ||| a

/-- A chunk. -/
def chunk (name : String) (body : ByteArray) : ByteArray :=
  let named := name.toUTF8 ++ body
  bigEndian body.size.toUInt32 ++ named ++ bigEndian (crc named)

/-- The most bytes a stored block takes. -/
def blockSize : Nat := 0xFFFF

/-- A stored block, with its length and the complement of it. -/
def storedBlock (isLast : Bool) (bytes : ByteArray) : ByteArray :=
  let length := bytes.size.toUInt16
  ⟨#[if isLast then 1 else 0]⟩ ++ littleEndian length ++ littleEndian (~~~length) ++ bytes

/-- Bytes as a packed stream. -/
def packed (bytes : ByteArray) : ByteArray :=
  let count := (bytes.size + blockSize - 1) / blockSize
  let blocks := (List.range count).foldl (fun out i =>
    out ++ storedBlock (i + 1 = count) (bytes.extract (i * blockSize) ((i + 1) * blockSize)))
    ⟨#[0x78, 0x01]⟩
  blocks ++ bigEndian (adler bytes)

/-- The rows of a picture, each behind a zero for no filter. -/
def rows (p : Picture) : ByteArray :=
  (List.range p.height).foldl (fun out y =>
    out.push 0 ++ p.rgba.extract (y * p.width * 4) ((y + 1) * p.width * 4)) .empty

/-- The measures of a picture, and what its pixels are: eight bits each of four colours. -/
def measures (p : Picture) : ByteArray :=
  bigEndian p.width.toUInt32 ++ bigEndian p.height.toUInt32 ++ ⟨#[8, 6, 0, 0, 0]⟩

/-- A picture as a PNG file. -/
def toPng (p : Picture) : ByteArray :=
  ⟨#[0x89, 0x50, 0x4E, 0x47, 0x0D, 0x0A, 0x1A, 0x0A]⟩ ++ chunk "IHDR" p.measures ++
    chunk "IDAT" (packed p.rows) ++ chunk "IEND" .empty

end C64.Picture
