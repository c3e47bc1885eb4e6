import C64.Bytes

/-!
# ROM images

The machine has room for three ROMs. An image that is given may have any size; only one that
fits its place is used, and a place without an image shows the memory underneath.
-/

namespace C64

/-- The places for ROMs. -/
inductive RomKind where
  | kernal | basic | character
deriving DecidableEq

namespace RomKind

/-- The bytes of an image that fits. -/
def size : RomKind → Nat
  | kernal => 8192
  | basic => 8192
  | character => 4096

/-- The name of the place in a message. -/
def name : RomKind → String
  | kernal => "Kernal"
  | basic => "BASIC"
  | character => "character"

end RomKind

/-- An image that does not fit its place. -/
structure RomError where
  kind : RomKind
  /-- The bytes it has. -/
  actual : Nat
deriving DecidableEq

/-- What to tell the user. -/
def RomError.message (e : RomError) : String :=
  s!"{e.kind.name} ROM is {e.actual} bytes, expected {e.kind.size}; running without it"

/-- Images as they are given. -/
structure RomImages where
  kernal : Option ByteArray := none
  basic : Option ByteArray := none
  character : Option ByteArray := none

/-- The sizes of the images in one line, for a debugger. -/
def RomImages.describe (r : RomImages) : String :=
  let size (image : Option ByteArray) : String :=
    match image with
    | some bytes => s!"Some({bytes.size})"
    | none => "None"
  s!"Roms \x7b kernal: {size r.kernal}, basic: {size r.basic}, chargen: {size r.character} \x7d"

/-- Images that fit. -/
structure Roms where
  kernal : Option (Bytes RomKind.kernal.size)
  basic : Option (Bytes RomKind.basic.size)
  character : Option (Bytes RomKind.character.size)

namespace Roms

/-- An image, if it fits its place. -/
def fit (kind : RomKind) : Option ByteArray → Except RomError (Option (Bytes kind.size))
  | none => .ok none
  | some bytes => if h : bytes.size = kind.size then .ok (some ⟨bytes, h⟩)
    else .error ⟨kind, bytes.size⟩

/-- The images that fit, and what is wrong with the others. -/
def ofImages (images : RomImages) : Roms × List RomError :=
  let kernal := fit .kernal images.kernal
  let basic := fit .basic images.basic
  let character := fit .character images.character
  let wrong {α : Type} : Except RomError α → List RomError
    | .ok _ => []
    | .error e => [e]
  (⟨kernal.toOption.join, basic.toOption.join, character.toOption.join⟩,
    wrong kernal ++ wrong basic ++ wrong character)

/-- The images of the ROMs. -/
def images (r : Roms) : RomImages :=
  ⟨r.kernal.map (·.data), r.basic.map (·.data), r.character.map (·.data)⟩

end Roms

end C64
