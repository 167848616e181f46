import BaselineAudit.Proofs.Audit.Keys
import BaselineAudit.Proofs.Css.Declarations
import BaselineAudit.Proofs.Text.Bytes

/-!
# Style text in a document

What a snippet uses, by the places in its text.

* `Css.Snippet.locate_eq`: an offset is taken to a place in the text, and that to the document.
* `Css.Snippet.locate_verbatim`: for text that stands in the document as it is, this is its own place
  there, with and without a rule around it.
* `Css.Snippet.declarations_startsBefore`, `Css.Snippet.usages_starts`: declarations start in the
  text, and so do usages.
* `Css.declarationsOfAll_relocate`: where locations come from matters for nothing else.
-/

namespace BaselineAudit

theorem Location.move_counted (cs : List Char) (offset : Nat) :
    (Location.move ⟨1, 1⟩ cs offset).Counted :=
  ⟨(Location.le_move ⟨1, 1⟩ cs offset).1, Location.one_le_column_move cs offset⟩

/-- A text that starts later on its line: only the columns of this line move. -/
theorem Location.move_column (k : Nat) (cs : List Char) (offset : Nat) :
    Location.move ⟨1, 1 + k⟩ cs offset =
      if (Location.move ⟨1, 1⟩ cs offset).line = 1 then
        ⟨1, (Location.move ⟨1, 1⟩ cs offset).column + k⟩
      else Location.move ⟨1, 1⟩ cs offset := by
  obtain ⟨hline, hcolumn⟩ := Location.move_counted cs offset
  rw [← Origin.map_move]
  generalize Location.move ⟨1, 1⟩ cs offset = l at hline hcolumn
  rw [Origin.map]
  split
  · simp only [Location.mk.injEq, true_and]
    omega
  · cases l
    simp only [Location.mk.injEq, and_true]
    omega

namespace Css

/-! ## Locations -/

theorem Form.byteCount_opening (f : Form) : byteCount f.opening.toList = f.opening.utf8ByteSize := by
  cases f <;> rfl

/-- The opening of a form stands on one line. -/
theorem Form.move_opening (f : Form) (cs : List Char) (offset : Nat) :
    Location.move ⟨1, 1⟩ (f.opening.toList ++ cs) offset =
      if offset < f.opening.utf8ByteSize then ⟨1, 1 + offset⟩
      else Location.move ⟨1, 1 + f.opening.utf8ByteSize⟩ cs (offset - f.opening.utf8ByteSize) := by
  split
  next h =>
    rw [Location.move_append_left _ _ _ (by rw [f.byteCount_opening]; omega)]
    cases f with
    | stylesheet => exact absurd h (Nat.not_lt_zero _)
    | declarations =>
      have h : offset < 2 := h
      match offset, h with
      | 0, _ => rfl
      | 1, _ => rfl
  next h =>
    obtain ⟨o, rfl⟩ := Nat.exists_eq_add_of_le (Nat.le_of_not_lt h)
    rw [Nat.add_sub_cancel_left, ← f.byteCount_opening, Location.move_append]
    cases f <;> rfl

namespace Snippet

/-- The text of a snippet with what closes it. -/
def closed (s : Snippet) : List Char := s.text.toList ++ s.form.closing.toList

theorem source_toList (s : Snippet) : s.source.toList = s.form.opening.toList ++ s.closed := by
  simp [source, closed]

/-- What stands in front of the text does not count: an offset is one into the text. -/
theorem locate_eq (s : Snippet) (offset : Nat) :
    s.locate (.ofText s.source) offset =
      s.origin.map (Location.move ⟨1, 1⟩ s.closed (offset - s.form.opening.utf8ByteSize)) := by
  have hcounted := Location.move_counted s.closed (offset - s.form.opening.utf8ByteSize)
  unfold locate
  rw [LineIndex.locate_eq, source_toList, Form.move_opening, Location.move_column]
  generalize s.form.opening.utf8ByteSize = k at hcounted ⊢
  split
  next h =>
    rw [Nat.sub_eq_zero_of_le (Nat.le_of_lt h), Location.move_zero]
    simp only [if_true]
    congr 2
    omega
  next =>
    generalize Location.move ⟨1, 1⟩ s.closed (offset - k) = l at hcounted ⊢
    obtain ⟨-, hcolumn⟩ := hcounted
    obtain ⟨line, column⟩ := l
    simp only at hcolumn ⊢
    by_cases hline : line = 1
    · simp only [hline, if_true]
      congr 2
      omega
    · simp only [if_neg hline]

/-- Text that stands in a document as it is has its places there. An offset into it leads to the
location that the bytes of the document in front of it show, whether the text is read on its own or as
declarations with a rule around them. -/
theorem locate_verbatim (front text back : String) (o : Nat) (ho : o ≤ text.utf8ByteSize) :
    let document := front ++ text ++ back
    let start := (LineIndex.ofText document).locate front.utf8ByteSize
    let bare : Snippet := ⟨text, .declarations, .verbatim start⟩
    let place := (LineIndex.ofText document).locate (front.utf8ByteSize + o)
    place = .behind ((Text.bytes document.toList).take (front.utf8ByteSize + o)) ∧
      (Origin.verbatim start).map ((LineIndex.ofText text).locate o) = place ∧
      (LineIndex.ofText bare.source).locate (o + 2) =
        .behind ((Text.bytes bare.source.toList).take (o + 2)) ∧
      bare.locate (.ofText bare.source) (o + 2) = place := by
  intro document start bare place
  have hdocument : document.utf8ByteSize =
      front.utf8ByteSize + text.utf8ByteSize + back.utf8ByteSize := by
    simp [document, String.utf8ByteSize_append]
  have hsource : bare.source.utf8ByteSize = 2 + text.utf8ByteSize + 2 := by
    simp only [source, String.utf8ByteSize_append]
    rfl
  have hstands : Text.StandsAt document.toList front.utf8ByteSize text.toList :=
    ⟨front.toList, back.toList, by simp [document], Text.byteCount_toList front⟩
  have hbyte : o ≤ byteCount text.toList := (Text.byteCount_toList text).symm ▸ ho
  have hmap : (Origin.verbatim start).map (Location.move ⟨1, 1⟩ text.toList o) = place := by
    simp only [start, place, LineIndex.locate_eq]
    exact (Text.Aligned.refl text.toList).map_move hstands hbyte
  refine ⟨LineIndex.locate_eq_behind document (by omega), ?_,
    LineIndex.locate_eq_behind bare.source (by omega), ?_⟩
  · rw [LineIndex.locate_eq]
    exact hmap
  · rw [locate_eq, show o + 2 - bare.form.opening.utf8ByteSize = o from Nat.add_sub_cancel o 2, closed,
      Location.move_append_left _ _ _ hbyte]
    exact hmap

/-- The second line of a text behind a letter of two bytes, in a document where the text starts on a
later line. -/
theorem locate_verbatim_two_lines :
    let start := (LineIndex.ofText "<p\n style='é;\ngap: 1px'>").locate 11
    let bare : Snippet := ⟨"é;\ngap: 1px", .declarations, .verbatim start⟩
    4 ≤ "é;\ngap: 1px".utf8ByteSize ∧ start = ⟨2, 9⟩ ∧
      bare.locate (.ofText bare.source) (4 + 2) = ⟨3, 1⟩ := by
  have ho : 4 ≤ "é;\ngap: 1px".utf8ByteSize := by decide
  obtain ⟨-, -, -, h⟩ := locate_verbatim "<p\n style='" "é;\ngap: 1px" "'>" 4 ho
  exact ⟨ho, by decide, h.trans (by decide)⟩

/-- Declarations start two bytes in front of the end of the source, or earlier. -/
theorem declarations_startsBefore (s : Snippet) :
    ∀ d ∈ s.declarations, d.StartsBefore (s.locate (.ofText s.source)) (byteCount s.source.toList) := by
  intro d hd
  rw [declarations_eq] at hd
  cases htree : language.get.parse s.source.toList with
  | none =>
    rw [htree] at hd
    exact absurd hd List.not_mem_nil
  | some tree =>
    rw [htree] at hd
    exact parse_startsBefore htree d hd

end Snippet

theorem Declaration.location_of_mem_usages {d : Declaration} {u : Usage} (h : u ∈ d.usages) :
    u.location = some d.location := by
  rcases List.mem_cons.mp h with rfl | h
  · rfl
  · obtain ⟨v, -, rfl⟩ := List.mem_map.mp h
    rfl

/-- What a style sheet uses starts in it. -/
theorem Snippet.usages_starts (text : String) :
    ∀ u ∈ usages ⟨text, .stylesheet, .whole⟩, u.Starts text.toList := by
  intro u hu
  obtain ⟨d, hd, hu⟩ := List.mem_flatMap.mp hu
  obtain ⟨o, ho, hloc⟩ := declarations_startsBefore _ d hd
  have hclosed : closed ⟨text, .stylesheet, .whole⟩ = text.toList := by simp [closed, Form.closing]
  rw [source_toList, hclosed] at ho
  have hlt : o < byteCount text.toList := Nat.lt_of_succ_lt ho
  rw [locate_eq, hclosed] at hloc
  exact ⟨o, hlt, (Declaration.location_of_mem_usages hu).trans (congrArg some hloc)⟩

/-! ## Moving declarations -/

/-- A declaration at another location. -/
def Declaration.relocate (f : Location → Location) (d : Declaration) : Declaration :=
  { d with location := f d.location }

section

variable (cs : List Char) (f : Location → Location) (locate : Nat → Location)

theorem declaration?_relocate (n : Parsing.Node) :
    declaration? cs (fun o => f (locate o)) n = (declaration? cs locate n).map (·.relocate f) := by
  unfold declaration?
  split
  · rfl
  · cases n.namedChildren.find? (·.isNamed "property_name") <;> rfl

mutual

theorem declarationsOf_relocate : (n : Parsing.Node) →
    declarationsOf cs (fun o => f (locate o)) n = (declarationsOf cs locate n).map (·.relocate f)
  | ⟨label, start, size, hasError, children⟩ => by
    rw [declarationsOf, declarationsOf]
    split
    · rfl
    · split
      · rw [declaration?_relocate]
        cases declaration? cs locate ⟨label, start, size, hasError, children⟩ <;> rfl
      · exact declarationsOfAll_relocate children

/-- Where locations come from matters for nothing else. -/
theorem declarationsOfAll_relocate : (ns : List Parsing.Node) →
    declarationsOfAll cs (fun o => f (locate o)) ns =
      (declarationsOfAll cs locate ns).map (·.relocate f)
  | [] => by simp [declarationsOfAll]
  | n :: ns => by
    rw [declarationsOfAll, declarationsOfAll, List.map_append, declarationsOf_relocate n,
      declarationsOfAll_relocate ns]

end

end

namespace Snippet

/-- A snippet has the declarations of its text, taken to the document. -/
theorem declarations_relocate (text : String) (form : Form) (origin : Origin) :
    declarations ⟨text, form, origin⟩ =
      (declarations ⟨text, form, .whole⟩).map (·.relocate origin.map) := by
  rw [declarations_eq, declarations_eq]
  have hsource : source ⟨text, form, origin⟩ = source ⟨text, form, .whole⟩ := rfl
  rw [hsource]
  generalize language.get.parse (source ⟨text, form, .whole⟩).toList = tree?
  cases tree? with
  | none => rfl
  | some tree => exact declarationsOfAll_relocate _ origin.map _ tree.nodes

end Snippet

end Css

end BaselineAudit
