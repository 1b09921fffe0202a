/-
# Snapshots read back

Each part of a document is written as a value that is read as the same part
again, but for the font sizes: formats, runs, paragraphs, cells, tables, objects
with their properties, tables of contents and page breaks. A modest size is
read as some size, which is the same one if it is a multiple of one half; an
infinite one is lost. Ids are not written, and so a document is read back with
its ids given out anew.

Key definitions: `FontSize.reread`, `Document.reread`, `Document.Readable`,
`FontSize.IsHalves`, `Document.Storable`.
Key theorems: `Readable.ofSnapshot?_snapshot`, `Storable.reread_eq`.
-/
import Compositor.Document.Snapshot
import Compositor.Proofs.Document.FontSizes
import Compositor.Proofs.Document.Steps
import Compositor.Proofs.Json.Records

namespace Compositor
open Json

/-! ### What a snapshot can hold -/

/-- The size is a multiple of one half, of a magnitude below 10000. -/
def FontSize.IsHalves (size : FontSize) : Prop :=
  ∃ negative m, m < 20000 ∧ size = .finite (.of negative (5 * m) (-1))

/-- The size of the format, if it has one, is a multiple of one half. -/
def TextFormat.HasHalves (f : TextFormat) : Prop := ∀ size, f.fontSize = some size → size.IsHalves

/-- The formats in a block. -/
def Block.formats : Block → List TextFormat
  | paragraph p => p.runs.map (·.format)
  | table t => t.allRows.flatten.map (·.format)
  | object _ | contents _ | pageBreak => []

/-- The places of blocks that a block tells. -/
def Block.places : Block → List Nat
  | contents c => c.entries.map (·.blockIndex)
  | paragraph _ | table _ | object _ | pageBreak => []

/-- The sizes of the block's formats are multiples of one half, and the places
that it tells are in range. -/
structure Block.Storable (b : Block) : Prop where
  sizes : ∀ f ∈ b.formats, f.HasHalves
  places : ∀ place ∈ b.places, place < sizeBound

/-- The blocks can be stored, and the size of the file is in range. -/
structure Document.Storable (d : Document) : Prop where
  blocks : ∀ b ∈ d.blocks, b.Storable
  fileSize : d.metadata.fileSize < sizeBound

/-- The size of the format, if it has one, is modest. -/
def TextFormat.IsModest (f : TextFormat) : Prop := ∀ size, f.fontSize = some size → size.IsModest

/-- What is written for the block can be read. -/
structure Block.Readable (b : Block) : Prop where
  sizes : ∀ f ∈ b.formats, f.IsModest
  places : ∀ place ∈ b.places, place < sizeBound

/-- What is written for the document can be read. -/
structure Document.Readable (d : Document) : Prop where
  blocks : ∀ b ∈ d.blocks, b.Readable
  fileSize : d.metadata.fileSize < sizeBound

/-! ### What a size becomes -/

/-- The size that a size is read as after it was written. -/
def FontSize.reread : FontSize → Option FontSize
  | finite d => ofNumeral? (.ofDecimal d)
  | infinite _ => none

def TextFormat.reread (f : TextFormat) : TextFormat :=
  { f with fontSize := f.fontSize.bind FontSize.reread }

def Run.reread (r : Run) : Run := { r with format := r.format.reread }

def Cell.reread (c : Cell) : Cell := { c with format := c.format.reread }

def Block.reread : Block → Block
  | paragraph p => paragraph { p with runs := p.runs.map Run.reread }
  | table t => table (t.mapCells Cell.reread)
  | b => b

def Document.reread (d : Document) : Document := { d with blocks := d.blocks.map Block.reread }

/-! ### Simple values -/

namespace Json

theorem printable_ofText? (s : Option String) : Printable (ofText? s) := by
  cases s with
  | none => exact .null
  | some s => exact .string s

theorem nullable_ofText? (s : Option String) : nullable text? (some (ofText? s)) = some s := by
  cases s with
  | none => rfl
  | some s => rfl

theorem natural?_int {bound n : Nat} (h : n < bound) : natural? bound (int n) = some n := by
  have hread : integer? (int n) = some (.ofNat n) := integer?_ofInt n
  rw [natural?, hread]
  exact if_pos h

theorem byte?_int (n : UInt8) : byte? (int n.toNat) = some n := by
  have hread : natural? byteBound (int n.toNat) = some n.toNat := natural?_int n.toNat_lt
  rw [byte?, hread, Option.map_some, Nat.toUInt8_eq, UInt8.ofNat_toNat]

theorem size?_int {n : Nat} (h : n < sizeBound) : size? (int n) = some n := natural?_int h

theorem int64?_int (n : Int64) : int64? (int n.toInt) = some n := by
  have hread : integer? (int n.toInt) = some n.toInt := integer?_ofInt n.toInt
  rw [int64?, hread, Option.bind_some, if_pos ⟨n.minValue_le_toInt, n.toInt_le⟩, Int64.ofInt_toInt]

end Json

/-! ### Formats and runs -/

theorem FontSize.IsModest.printable_toJson {size : FontSize} (h : size.IsModest) :
    Printable size.toJson := by
  cases size with
  | finite d => exact .number (isProper_ofDecimal (h d rfl).1)
  | infinite negative => exact .null

/-- A size that may not be there, as a value. -/
def FontSize.json? : Option FontSize → Json
  | none => null
  | some size => size.toJson

theorem FontSize.nullable_json? {size? : Option FontSize}
    (h : ∀ size, size? = some size → size.IsModest) :
    nullable FontSize.ofJson? (some (json? size?)) = some (size?.bind FontSize.reread) := by
  cases size? with
  | none => rfl
  | some size =>
    cases size with
    | infinite negative => rfl
    | finite d =>
      obtain ⟨size, hsize⟩ := (h _ rfl).exists_ofNumeral?
      have hread : (finite d).reread = some size := hsize
      rw [Option.bind_some, hread]
      exact congrArg (Option.map some) hsize

namespace TextFormat

variable {f : TextFormat}

theorem IsModest.printable_toJson (h : f.IsModest) : Printable f.toJson := by
  refine printable_obj ?_
  simp only [List.forall_mem_cons]
  refine ⟨.bool _, .bool _, .bool _, .bool _, ?_, printable_ofText? _, nofun⟩
  cases hsize : f.fontSize with
  | none => exact .null
  | some size => exact (h size hsize).printable_toJson

theorem IsModest.ofJson?_toJson (h : f.IsModest) : ofJson? f.toJson = some f.reread := by
  have hfields : f.toJson.record?
      ["bold", "italic", "underline", "strikethrough", "font_size", "color"] 0 =
        some [some (.bool f.bold), some (.bool f.italic), some (.bool f.underline),
          some (.bool f.strikethrough), some (FontSize.json? f.fontSize),
          some (ofText? f.color)] :=
    record?_obj [.bool f.bold, .bool f.italic, .bool f.underline, .bool f.strikethrough,
      FontSize.json? f.fontSize, ofText? f.color] 0 (by decide) rfl
  unfold ofJson?
  rw [hfields]
  dsimp only
  rw [FontSize.nullable_json? h, nullable_ofText?]
  rfl

end TextFormat

theorem Run.printable_toJson {r : Run} (h : r.format.IsModest) : Printable r.toJson := by
  refine printable_obj ?_
  simp only [List.forall_mem_cons]
  exact ⟨.string _, h.printable_toJson, nofun⟩

theorem Run.ofJson?_toJson {r : Run} (h : r.format.IsModest) :
    Run.ofJson? r.toJson = some r.reread := by
  have hfields : r.toJson.record? ["text", "formatting"] 0 =
      some [some (str r.text), some r.format.toJson] :=
    record?_obj [str r.text, r.format.toJson] 0 (by decide) rfl
  unfold Run.ofJson?
  rw [hfields]
  dsimp only [required, Option.bind_some]
  rw [h.ofJson?_toJson]
  rfl

/-! ### Paragraphs -/

namespace Paragraph

variable {p : Paragraph}

/-- A level that may not be there, as a value. -/
def levelJson : Option UInt8 → Json
  | none => null
  | some level => int level.toNat

theorem nullable_levelJson (level : Option UInt8) :
    nullable byte? (some (levelJson level)) = some level := by
  cases level with
  | none => rfl
  | some level => exact congrArg (Option.map some) (byte?_int level)

theorem printable_toJson (h : ∀ r ∈ p.runs, r.format.IsModest) : Printable p.toJson := by
  refine printable_obj ?_
  simp only [List.forall_mem_cons]
  refine ⟨printable_ofText? _, ?_, printable_array fun r hr => Run.printable_toJson (h r hr), nofun⟩
  cases p.level with
  | none => exact .null
  | some level => exact printable_int _

theorem ofJson?_toJson (h : ∀ r ∈ p.runs, r.format.IsModest) :
    ofJson? p.toJson = some { p with id := 0, runs := p.runs.map Run.reread } := by
  have hfields : p.toJson.record? ["style", "outline_level", "runs"] 0 =
      some [some (ofText? p.style), some (levelJson p.level),
        some (.array (p.runs.map Run.toJson))] :=
    record?_obj [ofText? p.style, levelJson p.level, .array (p.runs.map Run.toJson)]
      0 (by decide) rfl
  have hruns : list? Run.ofJson? (.array (p.runs.map Run.toJson)) =
      some (p.runs.map Run.reread) :=
    list?_map fun r hr => Run.ofJson?_toJson (h r hr)
  unfold ofJson?
  rw [hfields]
  dsimp only [required, Option.bind_some]
  rw [nullable_ofText?, nullable_levelJson, hruns]
  rfl

end Paragraph

/-! ### Tables -/

theorem Cell.printable_toJson {c : Cell} (h : c.format.IsModest) : Printable c.toJson := by
  refine printable_obj ?_
  simp only [List.forall_mem_cons]
  exact ⟨.string _, h.printable_toJson, nofun⟩

theorem Cell.ofJson?_toJson {c : Cell} (h : c.format.IsModest) :
    Cell.ofJson? c.toJson = some c.reread := by
  have hfields : c.toJson.record? ["content", "formatting"] 1 =
      some [some (str c.content), some c.format.toJson] :=
    record?_obj [str c.content, c.format.toJson] 1 (by decide) rfl
  unfold Cell.ofJson?
  rw [hfields]
  dsimp only [required, assumed, Option.bind_some]
  rw [h.ofJson?_toJson]
  rfl

namespace Table

variable {t : Table}

theorem printable_toJson (h : ∀ row ∈ t.allRows, ∀ c ∈ row, c.format.IsModest) :
    Printable t.toJson := by
  obtain ⟨hheaders, hrows⟩ := List.forall_mem_cons.mp h
  refine printable_obj ?_
  simp only [List.forall_mem_cons]
  exact ⟨printable_array fun c hc => Cell.printable_toJson (hheaders c hc),
    printable_array fun row hrow =>
      printable_array fun c hc => Cell.printable_toJson (hrows row hrow c hc),
    printable_ofText? _, nofun⟩

theorem ofJson?_toJson (h : ∀ row ∈ t.allRows, ∀ c ∈ row, c.format.IsModest) :
    ofJson? t.toJson = some { t.mapCells Cell.reread with id := 0 } := by
  obtain ⟨hheaders, hrows⟩ := List.forall_mem_cons.mp h
  have hfields : t.toJson.record? ["headers", "rows", "title"] 1 =
      some [some (.array (t.headers.map Cell.toJson)),
        some (.array (t.rows.map fun row => .array (row.map Cell.toJson))),
        some (ofText? t.title)] :=
    record?_obj [.array (t.headers.map Cell.toJson),
      .array (t.rows.map fun row => .array (row.map Cell.toJson)), ofText? t.title]
      1 (by decide) rfl
  have hhead : list? Cell.ofJson? (.array (t.headers.map Cell.toJson)) =
      some (t.headers.map Cell.reread) :=
    list?_map fun c hc => Cell.ofJson?_toJson (hheaders c hc)
  have hbody : list? (list? Cell.ofJson?)
      (.array (t.rows.map fun row => .array (row.map Cell.toJson))) =
        some (t.rows.map (·.map Cell.reread)) :=
    list?_map fun row hrow => list?_map fun c hc => Cell.ofJson?_toJson (hrows row hrow c hc)
  unfold ofJson?
  rw [hfields]
  dsimp only [required, Option.bind_some]
  rw [hhead, hbody, nullable_ofText?]
  rfl

end Table

/-! ### Objects -/

theorem PropertyValue.printable_toJson (value : PropertyValue) : Printable value.toJson := by
  cases value with
  | text value => exact printable_chosen _ (.string value)
  | integer value => exact printable_chosen _ (printable_int _)
  | boolean value => exact printable_chosen _ (.bool value)

theorem PropertyValue.ofJson?_toJson (value : PropertyValue) :
    PropertyValue.ofJson? value.toJson = some value := by
  cases value with
  | text value => rfl
  | integer value => exact congrArg (Option.map integer) (int64?_int value)
  | boolean value => rfl

namespace PropertyBag

/-- A name behind all others goes to the end. -/
theorem insertInto_eq_append {name : String} {value : PropertyValue}
    {es : List (String × PropertyValue)} (h : ∀ e ∈ es, e.1 < name) :
    insertInto name value es = es ++ [(name, value)] := by
  induction es with
  | nil => rfl
  | cons e es ih =>
    obtain ⟨he, hes⟩ := List.forall_mem_cons.mp h
    have hnot : ¬ name < e.1 := String.lt_asymm he
    have hne : name ≠ e.1 := by
      rintro rfl
      exact String.lt_irrefl _ he
    rw [insertInto, if_neg hnot, if_neg hne, ih hes]
    rfl

theorem entries_foldl_insert (es : List (String × PropertyValue)) (bag : PropertyBag)
    (h : (bag.entries ++ es).Pairwise fun a b => a.1 < b.1) :
    (es.foldl (fun bag e => bag.insert e.1 e.2) bag).entries = bag.entries ++ es := by
  induction es generalizing bag with
  | nil => exact (List.append_nil _).symm
  | cons e es ih =>
    have hlast : (bag.insert e.1 e.2).entries = bag.entries ++ [e] :=
      insertInto_eq_append fun e' he' =>
        (List.pairwise_append.mp h).2.2 e' he' e List.mem_cons_self
    have hrest : ((bag.insert e.1 e.2).entries ++ es).Pairwise fun a b => a.1 < b.1 := by
      rw [hlast, List.append_assoc]
      exact h
    rw [List.foldl_cons, ih _ hrest, hlast, List.append_assoc]
    rfl

/-- A bag is made of its entries. -/
theorem ofList_entries (bag : PropertyBag) : ofList bag.entries = bag := by
  have hentries : (ofList bag.entries).entries = bag.entries :=
    entries_foldl_insert bag.entries .empty bag.sorted
  cases hbag : ofList bag.entries with
  | mk entries sorted =>
    rw [hbag] at hentries
    obtain rfl := hentries
    rfl

theorem printable_toJson (bag : PropertyBag) : Printable bag.toJson := by
  refine printable_obj fun m hm => ?_
  obtain ⟨e, -, rfl⟩ := List.mem_map.mp hm
  exact e.2.printable_toJson

theorem ofJson?_toJson (bag : PropertyBag) : ofJson? bag.toJson = some bag := by
  have hmembers : bag.toJson = .object (bag.entries.map fun e => (some e.1, e.2.toJson)) := by
    unfold toJson obj
    rw [List.map_map]
    rfl
  have hentries : (bag.entries.map fun e => (some e.1, e.2.toJson)).mapM
      (fun (m : Option String × Json) => do
        let name ← m.1
        let value ← PropertyValue.ofJson? m.2
        return (name, value)) = some (bag.entries.map id) :=
    mapM_eq_some fun e _ => by
      dsimp only
      rw [e.2.ofJson?_toJson]
      rfl
  rw [hmembers, ofJson?]
  refine (congrArg (Option.bind · fun es => some (ofList es)) hentries).trans ?_
  rw [List.map_id, Option.bind_some, bag.ofList_entries]

end PropertyBag

theorem ObjectKind.ofJson?_name (kind : ObjectKind) :
    ObjectKind.ofJson? (str kind.name) = some kind := by
  cases kind <;> decide

theorem EmbeddedObject.printable_toJson (o : EmbeddedObject) : Printable o.toJson := by
  refine printable_obj ?_
  simp only [List.forall_mem_cons]
  exact ⟨.string _, .string _, o.properties.printable_toJson, nofun⟩

theorem EmbeddedObject.ofJson?_toJson (o : EmbeddedObject) :
    EmbeddedObject.ofJson? o.toJson = some o := by
  have hfields : o.toJson.record? ["name", "kind", "properties"] 1 =
      some [some (str o.name), some (str o.kind.name), some o.properties.toJson] :=
    record?_obj [str o.name, str o.kind.name, o.properties.toJson] 1 (by decide) rfl
  unfold EmbeddedObject.ofJson?
  rw [hfields]
  dsimp only [required, assumed, Option.bind_some]
  rw [o.kind.ofJson?_name, o.properties.ofJson?_toJson]
  rfl

/-! ### Tables of contents -/

theorem OutlineItem.printable_toJson (item : OutlineItem) : Printable item.toJson := by
  refine printable_obj ?_
  simp only [List.forall_mem_cons]
  exact ⟨.string _, printable_int _, printable_int _, nofun⟩

theorem OutlineItem.ofJson?_toJson {item : OutlineItem} (h : item.blockIndex < sizeBound) :
    OutlineItem.ofJson? item.toJson = some item := by
  have hfields : item.toJson.record? ["title", "level", "block_index"] 0 =
      some [some (str item.title), some (int item.level.toNat), some (int item.blockIndex)] :=
    record?_obj [str item.title, int item.level.toNat, int item.blockIndex]
      0 (by decide) rfl
  unfold OutlineItem.ofJson?
  rw [hfields]
  dsimp only [required, Option.bind_some]
  rw [byte?_int, size?_int h]
  rfl

theorem TableOfContents.printable_toJson (c : TableOfContents) : Printable c.toJson := by
  refine printable_obj ?_
  simp only [List.forall_mem_cons]
  exact ⟨.string _, printable_array fun item _ => item.printable_toJson, nofun⟩

theorem TableOfContents.ofJson?_toJson {c : TableOfContents}
    (h : ∀ item ∈ c.entries, item.blockIndex < sizeBound) :
    TableOfContents.ofJson? c.toJson = some c := by
  have hfields : c.toJson.record? ["title", "entries"] 1 =
      some [some (str c.title), some (.array (c.entries.map OutlineItem.toJson))] :=
    record?_obj [str c.title, .array (c.entries.map OutlineItem.toJson)]
      1 (by decide) rfl
  have hentries : list? OutlineItem.ofJson? (.array (c.entries.map OutlineItem.toJson)) =
      some (c.entries.map id) :=
    list?_map fun item hitem => OutlineItem.ofJson?_toJson (h item hitem)
  unfold TableOfContents.ofJson?
  rw [hfields]
  dsimp only [required, assumed, Option.bind_some]
  rw [hentries, List.map_id]
  rfl

/-! ### Blocks -/

namespace Block

variable {b : Block}

theorem Readable.runs {p : Paragraph} (h : (paragraph p).Readable) :
    ∀ r ∈ p.runs, r.format.IsModest :=
  fun _ hr => h.sizes _ (List.mem_map_of_mem hr)

theorem Readable.cells {t : Table} (h : (table t).Readable) :
    ∀ row ∈ t.allRows, ∀ c ∈ row, c.format.IsModest :=
  fun row hrow _ hc => h.sizes _ (List.mem_map_of_mem (List.mem_flatten.mpr ⟨row, hrow, hc⟩))

theorem Readable.printable_toJson (h : b.Readable) : Printable b.toJson := by
  cases b with
  | paragraph p => exact printable_chosen _ (Paragraph.printable_toJson h.runs)
  | table t =>
    have htable := Table.printable_toJson h.cells
    exact printable_chosen _ (printable_obj fun _ hm => List.mem_singleton.mp hm ▸ htable)
  | object o => exact printable_chosen _ o.printable_toJson
  | contents c => exact printable_chosen _ c.printable_toJson
  | pageBreak => exact .string _

/-- A block is read back without its id. -/
theorem Readable.ofJson?_toJson (h : b.Readable) :
    ofJson? b.toJson = some (b.reread.withId 0) := by
  cases b with
  | paragraph p => exact congrArg (Option.map paragraph) (Paragraph.ofJson?_toJson h.runs)
  | table t =>
    have hfields : (obj [("table", t.toJson)]).record? ["table"] 0 = some [some t.toJson] :=
      record?_obj [t.toJson] 0 (by decide) rfl
    have hchoice : (table t).toJson.choice? = some ("Table", obj [("table", t.toJson)]) := rfl
    unfold ofJson?
    rw [hchoice]
    simp only [hfields]
    exact congrArg (Option.map table) (Table.ofJson?_toJson h.cells)
  | object o => exact congrArg (Option.map object) o.ofJson?_toJson
  | contents c =>
    exact congrArg (Option.map contents)
      (TableOfContents.ofJson?_toJson fun item hitem => h.places _ (List.mem_map_of_mem hitem))
  | pageBreak => rfl

end Block

/-! ### Documents -/

/-- Ids that are given out do not depend on those that there were. -/
theorem numberBlocks_map_withId (next id : Nat) (bs : List Block) :
    numberBlocks next (bs.map (·.withId id)) = numberBlocks next bs := by
  induction bs generalizing next with
  | nil => rfl
  | cons b bs ih =>
    have hhas : (b.withId id).hasId = b.hasId := by cases b <;> rfl
    have hid : (b.withId id).withId (freshId next) = b.withId (freshId next) := by cases b <;> rfl
    rw [List.map_cons, numberBlocks, numberBlocks, hhas, hid, ih]

theorem Metadata.printable_toJson (m : Metadata) : Printable m.toJson := by
  refine printable_obj ?_
  simp only [List.forall_mem_cons]
  exact ⟨.string _, printable_int _, printable_ofText? _, nofun⟩

theorem Metadata.ofJson?_toJson {m : Metadata} (h : m.fileSize < sizeBound) :
    Metadata.ofJson? m.toJson = some m := by
  have hfields : m.toJson.record? ["file_path", "file_size", "author"] 1 =
      some [some (str m.filePath), some (int m.fileSize), some (ofText? m.author)] :=
    record?_obj [str m.filePath, int m.fileSize, ofText? m.author] 1 (by decide) rfl
  unfold Metadata.ofJson?
  rw [hfields]
  dsimp only [required, Option.bind_some]
  rw [size?_int h, nullable_ofText?]
  rfl

namespace Document

variable {d : Document}

theorem Readable.printable_toJson (h : d.Readable) : Printable d.toJson := by
  refine printable_obj ?_
  simp only [List.forall_mem_cons]
  exact ⟨.string _, d.metadata.printable_toJson,
    printable_array fun b hb => (h.blocks b hb).printable_toJson, nofun⟩

theorem Readable.ofJson?_toJson (h : d.Readable) : ofJson? d.toJson = some d.reread.renumber := by
  have hfields : d.toJson.record? ["title", "metadata", "blocks"] 0 =
      some [some (str d.title), some d.metadata.toJson,
        some (.array (d.blocks.map Block.toJson))] :=
    record?_obj [str d.title, d.metadata.toJson, .array (d.blocks.map Block.toJson)]
      0 (by decide) rfl
  have hblocks : list? Block.ofJson? (.array (d.blocks.map Block.toJson)) =
      some ((d.blocks.map Block.reread).map (·.withId 0)) := by
    rw [List.map_map]
    exact mapM_eq_some fun b hb => (h.blocks b hb).ofJson?_toJson
  unfold ofJson?
  rw [hfields]
  dsimp only [required, Option.bind_some]
  rw [Metadata.ofJson?_toJson h.fileSize, hblocks]
  show some { ofBlocks d.title ((d.blocks.map Block.reread).map (·.withId 0)) with
    metadata := d.metadata } = _
  rw [ofBlocks, renumber, numberBlocks_map_withId]
  rfl

/-- The snapshot of a document is read as the document with its sizes reread
and its ids given out anew. -/
theorem Readable.ofSnapshot?_snapshot (h : d.Readable) :
    ofSnapshot? d.snapshot = some d.reread.renumber := by
  unfold ofSnapshot? snapshot
  rw [parse?_print h.printable_toJson]
  exact h.ofJson?_toJson

end Document

/-! ### Sizes that are multiples of one half -/

theorem FontSize.IsHalves.isModest {size : FontSize} (h : size.IsHalves) : size.IsModest := by
  obtain ⟨negative, m, hm, rfl⟩ := h
  exact isModest_of_isShort (Decimal.isStripped_of _ _ _) (Decimal.isShort_of_half negative hm)

theorem FontSize.IsHalves.reread_eq {size : FontSize} (h : size.IsHalves) :
    size.reread = some size := by
  obtain ⟨negative, m, hm, rfl⟩ := h
  have hdecimal := decimal_ofDecimal (Decimal.isStripped_of negative (5 * m) (-1))
  have hshort : (Numeral.ofDecimal (.of negative (5 * m) (-1))).decimal.isShort = true :=
    hdecimal.symm ▸ Decimal.isShort_of_half negative hm
  refine (FontSize.ofNumeral?_of_isShort hshort).trans ?_
  rw [hdecimal]

theorem TextFormat.HasHalves.reread_eq {f : TextFormat} (h : f.HasHalves) : f.reread = f := by
  have hsize : f.fontSize.bind FontSize.reread = f.fontSize := by
    cases hf : f.fontSize with
    | none => rfl
    | some size => exact (h size hf).reread_eq
  rw [reread, hsize]

theorem Block.reread_eq {b : Block} (h : ∀ f ∈ b.formats, f.HasHalves) : b.reread = b := by
  cases b with
  | paragraph p =>
    have hruns : p.runs.map Run.reread = p.runs := by
      refine (List.map_congr_left fun r hr => ?_).trans (List.map_id _)
      rw [Run.reread, (h _ (List.mem_map_of_mem hr)).reread_eq]
      rfl
    rw [reread, hruns]
  | table t =>
    have hcell : ∀ row ∈ t.allRows, row.map Cell.reread = row := by
      intro row hrow
      refine (List.map_congr_left fun c hc => ?_).trans (List.map_id _)
      have hmem : c ∈ t.allRows.flatten := List.mem_flatten.mpr ⟨row, hrow, hc⟩
      rw [Cell.reread, (h _ (List.mem_map_of_mem hmem)).reread_eq]
      rfl
    obtain ⟨hheaders, hrows⟩ := List.forall_mem_cons.mp hcell
    have hbody : t.rows.map (·.map Cell.reread) = t.rows :=
      (List.map_congr_left hrows).trans (List.map_id _)
    rw [reread, Table.mapCells, hheaders, hbody]
  | object | contents | pageBreak => rfl

namespace Document

variable {d : Document}

theorem Storable.readable (h : d.Storable) : d.Readable where
  blocks b hb := ⟨fun f hf size hsize => ((h.blocks b hb).sizes f hf size hsize).isModest,
    (h.blocks b hb).places⟩
  fileSize := h.fileSize

theorem Storable.reread_eq (h : d.Storable) : d.reread = d := by
  have hblocks : d.blocks.map Block.reread = d.blocks :=
    (List.map_congr_left fun b hb => Block.reread_eq (h.blocks b hb).sizes).trans (List.map_id _)
  rw [reread, hblocks]

end Document
end Compositor
