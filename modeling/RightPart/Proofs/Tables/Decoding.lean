import RightPart.Proofs.Tables.Emission
import RightPart.Proofs.Text.Datum

namespace RightPart

/-- A way in which rows write values, and how they are read again from the data that they
are written as. -/
structure Coding (α : Type) where
  text : α → String
  datum : α → Datum
  read : Datum → Option α
  Valid : α → Prop
  toList_text : ∀ a, Valid a → (text a).toList = (datum a).chars
  read_datum : ∀ a, Valid a → read (datum a) = some a

theorem mapM_map_eq_some {α β : Type} {f : α → β} {g : β → Option α} {l : List α}
    (h : ∀ a ∈ l, g (f a) = some a) : (l.map f).mapM g = some l := by
  induction l with
  | nil => rfl
  | cons a l ih =>
    obtain ⟨ha, hl⟩ := List.forall_mem_cons.1 h
    rw [List.map_cons, List.mapM_cons, ha, ih hl]
    rfl

namespace Coding

def string : Coding String where
  text := Text.quoted
  datum := .text
  read
    | .text s => some s
    | _ => none
  Valid _ := True
  toList_text _ _ := rfl
  read_datum _ _ := rfl

def natural : Coding Nat where
  text := toString
  datum n := .number (.ofNat n)
  read
    | .number (.ofNat n) => some n
    | _ => none
  Valid _ := True
  toList_text _ _ := rfl
  read_datum _ _ := rfl

def entry : Coding (String × Nat) where
  text e := "(" ++ Text.quoted e.1 ++ ", " ++ toString e.2 ++ ")"
  datum e := .group .round [.text e.1, .number (.ofNat e.2)]
  read
    | .group .round [.text s, .number (.ofNat k)] => some (s, k)
    | _ => none
  Valid _ := True
  toList_text e _ := by
    simp only [String.toList_append, String.reduceToList, Datum.chars, Datum.charsAll,
      Datum.charsRest, List.append_nil, List.append_assoc, List.cons_append, List.nil_append]
    rfl
  read_datum _ _ := rfl

def argument : Coding Argument where
  text := Argument.text
  datum
    | .int v => .number v.toInt
    | .str s => .text s
  read
    | .number n => some (.int (.ofInt n))
    | .text s => some (.str s)
    | .group .. => none
  Valid _ := True
  toList_text a _ := by cases a <;> rfl
  read_datum a _ := by
    cases a with
    | int v => exact congrArg (fun v ↦ some (Argument.int v)) (Int64.ofInt_toInt v)
    | str s => rfl

section

variable {α : Type} (c : Coding α) {l : List α}

theorem toList_intercalate (h : ∀ a ∈ l, c.Valid a) :
    (String.intercalate ", " (l.map c.text)).toList = Datum.charsAll (l.map c.datum) := by
  rw [String.toList_intercalate, Datum.charsAll_eq, List.map_map, List.map_map]
  refine congrArg _ (List.map_congr_left fun a ha ↦ ?_)
  exact c.toList_text a (h a ha)

theorem mapM_read (h : ∀ a ∈ l, c.Valid a) : (l.map c.datum).mapM c.read = some l :=
  mapM_map_eq_some fun a ha ↦ c.read_datum a (h a ha)

theorem toList_brackets (h : ∀ a ∈ l, c.Valid a) :
    ("[" ++ String.intercalate ", " (l.map c.text) ++ "]").toList =
      (Datum.group .square (l.map c.datum)).chars := by
  rw [String.toList_append, String.toList_append, c.toList_intercalate h]
  rfl

end

end Coding

namespace SymbolSet

/-- A set that is written in brackets is to have a symbol, as codes and names are written alike
when there is none. -/
def Filled : SymbolSet → Prop
  | text _ => True
  | codes l => l ≠ []
  | names l => l ≠ []

instance : DecidablePred Filled
  | text _ => inferInstanceAs (Decidable True)
  | codes l => inferInstanceAs (Decidable (l ≠ []))
  | names l => inferInstanceAs (Decidable (l ≠ []))

def datum : SymbolSet → Datum
  | text s => .text s
  | codes l => .group .square (l.map Coding.natural.datum)
  | names l => .group .square (l.map Coding.string.datum)

def ofDatum? : Datum → Option SymbolSet
  | .text s => some (.text s)
  | .group .square l =>
    ((l.mapM Coding.natural.read).map codes).or ((l.mapM Coding.string.read).map names)
  | _ => none

theorem ofDatum?_datum {s : SymbolSet} (h : s.Filled) : ofDatum? s.datum = some s := by
  cases s with
  | text s => rfl
  | codes l =>
    rw [datum, ofDatum?, Coding.natural.mapM_read fun _ _ ↦ trivial]
    rfl
  | names l =>
    obtain ⟨s, l, rfl⟩ := List.exists_cons_of_ne_nil h
    have hcodes : ((s :: l).map Coding.string.datum).mapM Coding.natural.read = none := rfl
    rw [datum, ofDatum?, hcodes, Coding.string.mapM_read fun _ _ ↦ trivial]
    rfl

theorem toList_render (s : SymbolSet) : s.render.toList = s.datum.chars := by
  cases s with
  | text s => rfl
  | codes l => exact Coding.natural.toList_brackets fun _ _ ↦ trivial
  | names l => exact Coding.string.toList_brackets fun _ _ ↦ trivial

def coding : Coding SymbolSet where
  text := render
  datum := datum
  read := ofDatum?
  Valid := Filled
  toList_text s _ := s.toList_render
  read_datum _ h := ofDatum?_datum h

end SymbolSet

def IsAttributes (s : String) : Prop := ∃ a : Attributes, a.text = s

theorem isAttributes_iff {s : String} :
    (∃ read stack keep node, (⟨read, stack, keep, node⟩ : Attributes).text = s) ↔
      IsAttributes s := by
  constructor
  · intro h
    obtain ⟨read, stack, keep, node, h⟩ := h
    exact ⟨_, h⟩
  · intro h
    obtain ⟨⟨read, stack, keep, node⟩, h⟩ := h
    exact ⟨read, stack, keep, node, h⟩

instance : DecidablePred IsAttributes := fun _ ↦ decidable_of_iff _ isAttributes_iff

theorem quoted_of_isAttributes {s : String} (h : IsAttributes s) :
    Text.quoted s = "\"" ++ s ++ "\"" := by
  obtain ⟨⟨read, stack, keep, node⟩, rfl⟩ := h
  revert read stack keep node
  decide +kernel

namespace Coding

variable {α : Type} (c : Coding α) {m : α × String × Nat} {l : List (α × String × Nat)}

def Legible (m : α × String × Nat) : Prop := c.Valid m.1 ∧ IsAttributes m.2.1

def move (m : α × String × Nat) : Datum :=
  .group .round [c.datum m.1, .text m.2.1, .number (.ofNat m.2.2)]

def readMove : Datum → Option (α × String × Nat)
  | .group .round [subject, .text attributes, .number (.ofNat target)] =>
    (c.read subject).map (·, attributes, target)
  | _ => none

theorem toList_moveText (h : c.Legible m) :
    (Row.moveText (c.text m.1) m.2.1 m.2.2).toList = ',' :: ' ' :: (c.move m).chars := by
  have hattributes := congrArg String.toList (quoted_of_isAttributes h.2)
  simp only [String.toList_append, String.reduceToList] at hattributes
  simp only [Row.moveText, move, String.toList_append, String.reduceToList, c.toList_text m.1 h.1,
    Datum.chars, Datum.charsAll, Datum.charsRest, hattributes, List.append_nil, List.append_assoc,
    List.cons_append, List.nil_append]
  rfl

theorem toList_moves (h : ∀ m ∈ l, c.Legible m) :
    (String.join (l.map fun m ↦ Row.moveText (c.text m.1) m.2.1 m.2.2)).toList =
      Datum.charsRest (l.map c.move) := by
  rw [String.toList_join, Datum.charsRest_eq, List.flatMap_map, List.flatMap_map]
  exact List.flatMap_congr fun m hm ↦ c.toList_moveText (h m hm)

theorem mapM_readMove (h : ∀ m ∈ l, c.Legible m) : (l.map c.move).mapM c.readMove = some l := by
  refine mapM_map_eq_some fun m hm ↦ ?_
  rw [move, readMove, c.read_datum m.1 (h m hm).1]
  rfl

end Coding

namespace Row

/-- Rows that can be read again: the attributes are those of a label, and no set is empty that is
written in brackets. -/
def Legible : Row → Prop
  | scanner _ l => ∀ m ∈ l, m.1.Filled ∧ IsAttributes m.2.1
  | readahead _ l => ∀ m ∈ l, IsAttributes m.2.1
  | readback _ l => ∀ m ∈ l, IsAttributes m.2.1
  | reduce _ _ l => ∀ m ∈ l, IsAttributes m.2.1
  | semantic .. => True
  | accept _ => True

instance : DecidablePred Legible
  | scanner _ l => inferInstanceAs (Decidable (∀ m ∈ l, m.1.Filled ∧ IsAttributes m.2.1))
  | readahead _ l => inferInstanceAs (Decidable (∀ m ∈ l, IsAttributes m.2.1))
  | readback _ l => inferInstanceAs (Decidable (∀ m ∈ l, IsAttributes m.2.1))
  | reduce _ _ l => inferInstanceAs (Decidable (∀ m ∈ l, IsAttributes m.2.1))
  | semantic .. => inferInstanceAs (Decidable True)
  | accept _ => inferInstanceAs (Decidable True)

def datum : Row → Datum
  | scanner i l => labelled "ScannerReadaheadTable" i (l.map SymbolSet.coding.move)
  | readahead i l => labelled "ReadaheadTable" i (l.map Coding.string.move)
  | readback i l => labelled "ReadbackTable" i (l.map Coding.entry.move)
  | reduce i n l => labelled "ReduceTable" i (.text n :: l.map Coding.natural.move)
  | semantic i n l j => labelled "SemanticTable" i
      [.text n, .group .square (l.map Coding.argument.datum), .number (.ofNat j)]
  | accept i => labelled "AcceptTable" i []
where
  labelled (tag : String) (i : Nat) (l : List Datum) : Datum :=
    .group .square (.text tag :: .number (.ofNat i) :: l)

def ofDatum? : Datum → Option Row
  | .group .square (.text tag :: .number (.ofNat i) :: l) => ofParts? i tag l
  | _ => none
where
  ofParts? (i : Nat) : String → List Datum → Option Row
    | "ScannerReadaheadTable", l => (l.mapM SymbolSet.coding.readMove).map (scanner i)
    | "ReadaheadTable", l => (l.mapM Coding.string.readMove).map (readahead i)
    | "ReadbackTable", l => (l.mapM Coding.entry.readMove).map (readback i)
    | "ReduceTable", .text n :: l => (l.mapM Coding.natural.readMove).map (reduce i n)
    | "SemanticTable", [.text n, .group .square l, .number (.ofNat j)] =>
      (l.mapM Coding.argument.read).map (semantic i n · j)
    | "AcceptTable", [] => some (accept i)
    | _, _ => none

variable {r : Row}

theorem ofDatum?_datum (h : r.Legible) : ofDatum? r.datum = some r := by
  cases r with
  | scanner i l => exact congrArg (Option.map (scanner i)) (SymbolSet.coding.mapM_readMove h)
  | readahead i l =>
    exact congrArg (Option.map (readahead i))
      (Coding.string.mapM_readMove fun m hm ↦ ⟨trivial, h m hm⟩)
  | readback i l =>
    exact congrArg (Option.map (readback i))
      (Coding.entry.mapM_readMove fun m hm ↦ ⟨trivial, h m hm⟩)
  | reduce i n l =>
    exact congrArg (Option.map (reduce i n))
      (Coding.natural.mapM_readMove fun m hm ↦ ⟨trivial, h m hm⟩)
  | semantic i n l j =>
    exact congrArg (Option.map (semantic i n · j)) (Coding.argument.mapM_read fun _ _ ↦ trivial)
  | accept i => rfl

theorem toList_labelled (tag label : String) (h : Text.quoted label = "\"" ++ tag ++ "Table\"")
    (i : Nat) {s : String} {l : List Datum} (hs : s.toList = Datum.charsRest l) :
    (head tag i ++ s ++ "]").toList = (datum.labelled label i l).chars := by
  have hlabel := congrArg String.toList h
  simp only [String.toList_append, String.reduceToList] at hlabel
  simp only [head, datum.labelled, String.toList_append, String.reduceToList, hs, Datum.chars,
    Datum.charsAll, Datum.charsRest, hlabel, List.append_assoc, List.cons_append, List.nil_append]
  rfl

theorem toList_text (h : r.Legible) : r.text.toList = r.datum.chars := by
  cases r with
  | scanner i l =>
    exact toList_labelled "ScannerReadahead" "ScannerReadaheadTable" (by decide +kernel) i
      (SymbolSet.coding.toList_moves h)
  | readahead i l =>
    exact toList_labelled "Readahead" "ReadaheadTable" (by decide +kernel) i
      (Coding.string.toList_moves fun m hm ↦ ⟨trivial, h m hm⟩)
  | readback i l =>
    exact toList_labelled "Readback" "ReadbackTable" (by decide +kernel) i
      (Coding.entry.toList_moves fun m hm ↦ ⟨trivial, h m hm⟩)
  | reduce i n l =>
    have hmoves := Coding.natural.toList_moves fun m hm ↦ ⟨trivial, h m hm⟩
    have hparts : (", " ++ Text.quoted n ++
        String.join (l.map fun m ↦ moveText (toString m.1) m.2.1 m.2.2)).toList =
        Datum.charsRest (.text n :: l.map Coding.natural.move) := by
      rw [String.toList_append, String.toList_append, Datum.charsRest, ← hmoves]
      rfl
    refine (congrArg String.toList ?_).trans
      (toList_labelled "Reduce" "ReduceTable" (by decide +kernel) i hparts)
    simp only [text, String.append_assoc]
  | semantic i n l j =>
    have harguments : (String.intercalate ", " (l.map Argument.text)).toList =
        Datum.charsAll (l.map Coding.argument.datum) :=
      Coding.argument.toList_intercalate fun _ _ ↦ trivial
    have hparts :
        (", " ++ Text.quoted n ++ ", [" ++ String.intercalate ", " (l.map Argument.text) ++ "], " ++
        toString j).toList =
        Datum.charsRest [.text n, .group .square (l.map Coding.argument.datum),
          .number (.ofNat j)] := by
      simp only [String.toList_append, String.reduceToList, harguments, Datum.charsRest,
        Datum.chars, List.append_assoc, List.cons_append, List.nil_append, List.append_nil]
      rfl
    refine (congrArg String.toList ?_).trans
      (toList_labelled "Semantic" "SemanticTable" (by decide +kernel) i hparts)
    simp only [text, String.append_assoc]
  | accept i =>
    have hparts : "".toList = Datum.charsRest [] := rfl
    have hrow := toList_labelled "Accept" "AcceptTable" (by decide +kernel) i hparts
    rwa [String.append_empty] at hrow

def document (rows : List Row) : String := String.join (rows.map fun r ↦ r.text ++ "\n")

/-- The rows that a text is made of, whatever their kinds. -/
def decode (s : String) : Option (List Row) := (Datum.readAll s.toList).bind fun l ↦ l.mapM ofDatum?

variable {rows rows' : List Row}

theorem toList_document (rows : List Row) :
    (document rows).toList = rows.flatMap fun r ↦ r.text.toList ++ ['\n'] := by
  rw [document, String.toList_join, List.flatMap_map]
  exact List.flatMap_congr fun r _ ↦ String.toList_append

theorem decode_document (h : ∀ r ∈ rows, r.Legible) : decode (document rows) = some rows := by
  have hdata : (document rows).toList = (rows.map datum).flatMap fun d ↦ d.chars ++ ['\n'] := by
    rw [toList_document, List.flatMap_map]
    exact List.flatMap_congr fun r hr ↦ congrArg (· ++ ['\n']) (toList_text (h r hr))
  rw [decode, hdata, Datum.readAll_lines]
  exact mapM_map_eq_some fun r hr ↦ ofDatum?_datum (h r hr)

theorem splitOn_document (h : ∀ r ∈ rows, r.Legible) :
    (document rows).toList.splitOn '\n' = rows.map (·.text.toList) ++ [[]] := by
  rw [toList_document]
  induction rows with
  | nil => rfl
  | cons r rows ih =>
    obtain ⟨hr, hrows⟩ := List.forall_mem_cons.1 h
    have hline : '\n' ∉ r.text.toList := fun hmem ↦ by
      rw [toList_text hr] at hmem
      exact absurd (Datum.isControl_of_mem_chars _ hmem) (by decide)
    rw [List.flatMap_cons, List.append_assoc, List.singleton_append,
      List.splitOn_append_cons_self_of_not_mem hline, ih hrows]
    rfl

end Row

theorem SymbolSet.filled_ofNames {l : List String} (h : l ≠ []) : (ofNames l).Filled := by
  unfold ofNames
  split
  · rename_i cs hcs
    obtain rfl := eq_map_of_mapM_singleChar? hcs
    split
    · simpa [Filled] using h
    · trivial
  · exact h

namespace Tables

variable (t : Tables)

theorem isAttributes_attributeText (l : Label) : IsAttributes l.attributeText := ⟨_, rfl⟩

theorem legible_scannerRow (i : Nat) (s : ReadaheadState) : (t.scannerRow i s).Legible := by
  intro m hm
  obtain ⟨e, he, rfl⟩ := List.mem_map.1 hm
  obtain ⟨name, hname⟩ := OrderedMap.exists_of_mem_group he
  obtain ⟨x, -, heq⟩ := List.mem_map.1 hname
  have hnames : e.2 ≠ [] := by
    rw [(OrderedMap.mem_entries_group.1 he).2]
    exact List.ne_nil_of_mem (mem_valuesAt.2 hname)
  have hattributes : x.1.attributeText = e.1.attributes := congrArg (·.1.attributes) heq
  exact ⟨SymbolSet.filled_ofNames hnames, hattributes ▸ isAttributes_attributeText x.1⟩

theorem legible_rows : ∀ r ∈ t.rows, r.Legible := by
  intro r hr
  rcases mem_rows.1 hr with
    ⟨s, i, -, rfl⟩ | ⟨s, i, -, rfl⟩ | ⟨s, i, -, rfl⟩ | ⟨s, i, -, rfl⟩ | ⟨-, rfl⟩
  · split
    · exact t.legible_scannerRow i s
    · intro m hm
      obtain ⟨x, -, rfl⟩ := List.mem_map.1 hm
      exact isAttributes_attributeText x.1
  · intro m hm
    obtain ⟨x, -, rfl⟩ := List.mem_map.1 hm
    exact isAttributes_attributeText x.1.label
  · intro m hm
    obtain ⟨x, -, rfl⟩ := List.mem_map.1 hm
    exact isAttributes_attributeText x.label
  · trivial
  · trivial

end Tables

namespace Row

/-- The text of rows tells which rows they are, one on each line, whatever texts are in them. The
rows of tables can always be read again. -/
theorem document_decodable :
    (∀ rows : List Row, (∀ r ∈ rows, r.Legible) →
      decode (document rows) = some rows ∧
      (document rows).toList.splitOn '\n' = rows.map (·.text.toList) ++ [[]] ∧
      ∀ rows', (∀ r ∈ rows', r.Legible) → document rows = document rows' → rows = rows') ∧
    ∀ t : Tables, t.text = document t.rows ∧ (∀ r ∈ t.rows, r.Legible) ∧
    decode t.text = some t.rows := by
  refine ⟨fun rows h ↦ ⟨decode_document h, splitOn_document h, fun rows' h' heq ↦ ?_⟩, fun t ↦
    ⟨rfl, t.legible_rows, decode_document t.legible_rows⟩⟩
  have hdecode := decode_document h
  rw [heq, decode_document h'] at hdecode
  exact (Option.some.inj hdecode).symm

/-- Without a symbol, codes cannot be told from names. -/
example : (scanner 1 [(.codes [], "L", 1)]).text = (scanner 1 [(.names [], "L", 1)]).text := rfl

def samples : List Row := [
  .scanner 1 [(.text "\"]\n", "RK", 2), (.codes [9, 120], "L", 1),
    (.names ["if", ", ("], "RSKN", 3)],
  .readahead 2 [("\\", "RS", 1), ("", "L", 2)],
  .readback 3 [(("E\")", 1), "RSN", 4)],
  .reduce 4 "]" [(1, "RSN", 2), (2, "RSN", 2)],
  .semantic 5 "node" [.int (-3), .str "x\ty", .int 0] 1,
  .accept 6]

theorem document_decodable_samples : decode (document samples) = some samples ∧
    ((document samples).toList.splitOn '\n').length = 7 := by
  have hlegible : ∀ r ∈ samples, r.Legible := by decide +kernel
  obtain ⟨hdecode, hlines, -⟩ := document_decodable.1 samples hlegible
  exact ⟨hdecode, by rw [hlines]; rfl⟩

end Row

end RightPart
