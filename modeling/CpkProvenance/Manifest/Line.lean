import CpkProvenance.Bytes

/-!
# Lines and blocks of a manifest

A manifest is cut into lines at CR LF, LF or CR. A blank line ends a block.
Both cuts keep every byte: the lines of a file, and the blocks of its lines,
concatenate to what was cut.
-/

namespace CpkProvenance.Manifest

/-- A line without its ending, and the ending, which is empty for a last line
that the file breaks off. -/
structure Line where
  content : Bytes
  ending : Bytes
  deriving DecidableEq, Repr

namespace Line

def bytes (l : Line) : Bytes := l.content ++ l.ending

def prepend (b : UInt8) : List Line → List Line
  | [] => [⟨[b], []⟩]
  | l :: rest => ⟨b :: l.content, l.ending⟩ :: rest

end Line

def lines : Bytes → List Line
  | [] => []
  | 13 :: 10 :: rest => ⟨[], [13, 10]⟩ :: lines rest
  | b :: rest =>
      if b = 13 ∨ b = 10 then ⟨[], [b]⟩ :: lines rest
      else Line.prepend b (lines rest)

/-- A run of lines with content, and the blank line that ends it, if any. -/
structure Block where
  body : List Line
  blank : Option Line
  deriving DecidableEq, Repr

namespace Block

/-- All bytes of a block, its blank line included. -/
def bytes (b : Block) : Bytes :=
  b.body.flatMap Line.bytes ++ (b.blank.map Line.bytes).getD []

/-- Puts a line with content in front of the first of some blocks. -/
def prepend (l : Line) : List Block → List Block
  | [] => [⟨[l], none⟩]
  | b :: rest => ⟨l :: b.body, b.blank⟩ :: rest

end Block

def blocks : List Line → List Block
  | [] => []
  | l :: rest =>
      if l.content = [] then ⟨[], some l⟩ :: blocks rest
      else Block.prepend l (blocks rest)

end CpkProvenance.Manifest
