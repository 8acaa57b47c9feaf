import ThingQuery.Filter.Basic

/-!
# The leading predicate of a filter

The part of a connective that an index serves best is moved to the front.  In a conjunction a lookup by key comes first;
without one, equalities on all fields of a composite index come first, in the order of the index; without these, the
part with the best candidate for an index does.  Membership in a list becomes a disjunction of equalities there, so that
each of them can use the index.
-/

namespace ThingQuery

/-- How a filter can use an index. -/
structure Candidate where
  /-- How much is looked at: nothing for a key, otherwise the number of values, from one to a greatest number. -/
  penalty : Nat
  field : String
  /-- Whether the filter is a disjunction of equalities. -/
  isDisjunction : Bool
  deriving DecidableEq

namespace Candidate

/-- The number of values from which on longer lists count as equally long. -/
def maxPenalty : Nat := 1076

/-- The penalty of a list of values. -/
def listPenalty (count : Nat) : Nat := max 1 (min count maxPenalty)

/-- Whether the first candidate is better: a smaller penalty, then the lesser column, then a disjunction. -/
def beats (a b : Candidate) : Bool :=
  if a.penalty ≠ b.penalty then decide (a.penalty < b.penalty)
  else if a.field ≠ b.field then decide (a.field < b.field)
  else a.isDisjunction && !b.isDisjunction

/-- The first of the best candidates. -/
def best? (candidates : List Candidate) : Option Candidate :=
  candidates.foldl (fun best c =>
    match best with
    | none => some c
    | some b => if c.beats b then some c else some b) none

end Candidate

namespace Filter

/-- The column of an equality. -/
def equalityField? : Filter → Option String
  | .scalar .eq left _ => some left
  | _ => none

/-- The column, if all filters are equalities on it. -/
def commonField? : List Filter → Option String
  | [] => none
  | f :: rest =>
    match f.equalityField? with
    | some field => if rest.all (fun g => g.equalityField? == some field) then some field else none
    | none => none

/-- How a filter on a thing can use an index. -/
def candidate? (thing : Thing) : Filter → Option Candidate
  | .scalar .eq left _ =>
    if left = idColumn then some ⟨0, left, false⟩
    else if thing.isIndexed left then some ⟨1, left, false⟩
    else none
  | .list .isIn left right =>
    if left = idColumn then some ⟨0, left, false⟩
    else if thing.isIndexed left then some ⟨Candidate.listPenalty right.length, left, false⟩
    else none
  | .ref op left right _ _ =>
    if (op = .isIn ∨ op = .containsAny) ∧ (thing.field? left).any (·.kind.isRelational) then
      some ⟨Candidate.listPenalty right.length, left, false⟩
    else
      none
  | .or children =>
    if children.length ≤ 1 then none
    else
      match commonField? children with
      | some field =>
        if field ≠ idColumn ∧ thing.isIndexed field then
          some ⟨Candidate.listPenalty children.length, field, true⟩
        else
          none
      | none => none
  | _ => none

/-- The first filter of a kind and the others. -/
def extract? (p : Filter → Bool) : List Filter → Option (Filter × List Filter)
  | [] => none
  | f :: rest =>
    if p f then some (f, rest)
    else
      match extract? p rest with
      | some (found, others) => some (found, f :: others)
      | none => none

/-- An equality for each of the fields, in their order, and the other filters. -/
def extractEqualities? : List String → List Filter → Option (List Filter × List Filter)
  | [], filters => some ([], filters)
  | field :: fields, filters =>
    match extract? (fun f => f.equalityField? == some field) filters with
    | none => none
    | some (found, others) =>
      match extractEqualities? fields others with
      | none => none
      | some (group, rest) => some (found :: group, rest)

/-- The equalities that cover the first possible composite index, followed by the other filters. -/
def leadByComposite? (thing : Thing) (filters : List Filter) : Option (List Filter) :=
  thing.compositeIndexes.findSome? fun fields =>
    (extractEqualities? fields filters).map fun (group, rest) => group ++ rest

/-- The best candidate among the filters, the filter that it belongs to, and the other filters. -/
def extractBest? (thing : Thing) (filters : List Filter) : Option (Candidate × Filter × List Filter) :=
  match Candidate.best? (filters.filterMap (candidate? thing)) with
  | none => none
  | some best =>
    (extract? (fun f => f.candidate? thing == some best) filters).map fun (found, rest) => (best, found, rest)

/-- Membership in a list as equalities, apart from lookups by key; other filters stand for themselves. -/
def spread : Filter → List Filter
  | .list .isIn left right =>
    if left = idColumn then [.list .isIn left right] else right.map (.scalar .eq left)
  | other => [other]

/-- Membership in a list as a disjunction of equalities, apart from lookups by key. -/
def spreadOr : Filter → Filter
  | .list .isIn left right =>
    if left = idColumn then .list .isIn left right else .or (right.map (.scalar .eq left))
  | other => other

/-- The parts of a conjunction with the leading ones in front. -/
def leadConjuncts (thing : Thing) (filters : List Filter) : List Filter :=
  let best := extractBest? thing filters
  let byBest :=
    match best with
    | some (_, found, rest) => spreadOr found :: rest
    | none => filters
  match best with
  | some (⟨0, _, _⟩, _, _) => byBest
  | _ => (leadByComposite? thing filters).getD byBest

/-- The parts of a disjunction with the leading one in front. -/
def leadDisjuncts (thing : Thing) (filters : List Filter) : List Filter :=
  match extractBest? thing filters with
  | some (_, found, rest) => spread found ++ rest
  | none => filters

/-- The filter with its leading predicate in front. -/
def reorder (thing : Thing) : Filter → Filter
  | .and children => .and (leadConjuncts thing children)
  | .or children => .or (leadDisjuncts thing children)
  | other => other

end Filter

end ThingQuery
