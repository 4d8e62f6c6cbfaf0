import DeadCode.Outline

/-!
Outlines as flat lists: the nodes in pre-order, each with the number of its children. Main statement:
`ofListing_listing`, a listing gives back its outline.
-/

namespace DeadCode.Outline

/-- The outlines that a list of nodes spells, one after the other. Read from the end, the children of a node
are the outlines just read. -/
def ofListing (items : List (Head × Nat)) : List Outline :=
  items.foldr (fun (h, count) read => node h (read.take count) :: read.drop count) []

mutual

def listing : Outline → List (Head × Nat)
  | node h cs => (h, cs.length) :: listingAll cs

def listingAll : List Outline → List (Head × Nat)
  | [] => []
  | c :: cs => c.listing ++ listingAll cs

end

mutual

theorem ofListing_listing_append (o : Outline) (rest : List (Head × Nat)) :
    ofListing (o.listing ++ rest) = o :: ofListing rest := by
  cases o with
  | node h cs =>
    have hcs := ofListing_listingAll_append cs rest
    unfold ofListing at hcs ⊢
    simp [listing, hcs]

theorem ofListing_listingAll_append (cs : List Outline) (rest : List (Head × Nat)) :
    ofListing (listingAll cs ++ rest) = cs ++ ofListing rest := by
  cases cs with
  | nil => rfl
  | cons c cs =>
    rw [listingAll, List.append_assoc, ofListing_listing_append c, ofListing_listingAll_append cs]
    rfl

end

theorem ofListing_listing (o : Outline) : ofListing o.listing = [o] := by
  simpa [ofListing] using ofListing_listing_append o []

/-- One node of a listing, its fields separated by tabs: kind, start, stop, number of children, flags and
field. The flags count 1 for named, 2 for missing, 4 for erroneous and 8 for holding an error. -/
def Head.ofFields : List String → Option (Head × Nat)
  | kind :: start :: stop :: count :: flags :: field => do
    let flags ← flags.toNat?
    let head : Head := {
      kind := Kind.ofName kind, start := ← start.toNat?, stop := ← stop.toNat?
      named := flags.testBit 0, missing := flags.testBit 1
      erroneous := flags.testBit 2, hasError := flags.testBit 3
      field := field.head?.map Field.ofLabel }
    return (head, ← count.toNat?)
  | _ => none

end DeadCode.Outline
