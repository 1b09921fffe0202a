/-
# Archives

An archive ends in a record that tells how many entries it has and where the
directory of its entries starts; a comment may follow. The bytes before the
archive and those after the comment do not matter, so that of several records
the last one counts that has a directory.

Key definitions: `Archive.directory?`, `Archive.names?`.
-/
namespace Compositor.Archive

/-- The number in some of the bytes, the lowest byte first. -/
def number (start width : Nat) (bytes : List UInt8) : Nat :=
  ((bytes.drop start).take width).foldr (fun b n => b.toNat + 256 * n) 0

/-- Do the bytes start with the mark of the closing record? -/
def startsEnd : List UInt8 → Bool
  | 0x50 :: 0x4B :: 0x05 :: 0x06 :: _ => true
  | _ => false

/-- Do the bytes start with the mark of an entry in the directory? -/
def startsEntry : List UInt8 → Bool
  | 0x50 :: 0x4B :: 0x01 :: 0x02 :: _ => true
  | _ => false

/-- The size of the closing record without its comment. -/
def endSize : Nat := 22

/-- The size of an entry in the directory without its name, its extra fields
and its comment. -/
def entrySize : Nat := 46

/-- The bytes of a name as characters. -/
def nameOf (bytes : List UInt8) : String := String.ofList (bytes.map fun b => Char.ofNat b.toNat)

/-- The names of so many entries of a directory. -/
def entries? : (count : Nat) → List UInt8 → Option (List String)
  | 0, _ => some []
  | count + 1, bytes =>
    let nameSize := number 28 2 bytes
    let size := entrySize + nameSize + number 30 2 bytes + number 32 2 bytes
    if startsEntry bytes ∧ entrySize ≤ bytes.length ∧ size ≤ bytes.length then
      (entries? count (bytes.drop size)).map
        (nameOf ((bytes.drop entrySize).take nameSize) :: ·)
    else none

/-- The bytes from the first mark of an entry among the next `room` bytes. -/
def firstMark? : (room : Nat) → List UInt8 → Option (List UInt8)
  | 0, _ => none
  | room + 1, bytes =>
    if startsEntry bytes ∧ 3 ≤ room then some bytes
    else firstMark? room (bytes.drop 1)

/-- The names in the directory of an archive whose closing record is the head
of `record`, `start` bytes from the start. -/
def directory? (bytes record : List UInt8) (start : Nat) : Option (List String) :=
  let offset := number 16 4 record
  if !startsEnd record || record.length < endSize
      || record.length < endSize + number 20 2 record || number 4 2 record ≠ number 6 2 record then
    none
  else if number 10 2 record = 0 then
    entries? (number 8 2 record) (bytes.drop (max start offset))
  else (firstMark? (start - offset) (bytes.drop offset)).bind (entries? (number 8 2 record))

/-- The directory of the last closing record in `rest`, which starts so many
bytes from the start, or the one found before. -/
def lastDirectory? (bytes : List UInt8) :
    (start : Nat) → (rest : List UInt8) → (found : Option (List String)) → Option (List String)
  | _, [], found => found
  | start, b :: rest, found =>
    lastDirectory? bytes (start + 1) rest ((directory? bytes (b :: rest) start).or found)

/-- The names of the entries of an archive. -/
def names? (bytes : List UInt8) : Option (List String) := lastDirectory? bytes 0 bytes none

example : names? ([0x50, 0x4B, 5, 6] ++ List.replicate 18 0) = some [] := by decide +kernel
example : names? ([0x50, 0x4B, 5, 6] ++ List.replicate 17 0) = none := by decide +kernel

end Compositor.Archive
