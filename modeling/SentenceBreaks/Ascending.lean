/-! Ascending lists. Sequences are compared at their first difference, and a sequence comes before
its extensions. A list that holds an item per sequence stays ascending when items are put in or
taken out. -/

namespace SentenceBreaks.Ascending

variable {α β : Type} [LT β] [DecidableLT β]

def order : List β → List β → Ordering
  | [], [] => .eq
  | [], _ :: _ => .lt
  | _ :: _, [] => .gt
  | u :: us, v :: vs => if u < v then .lt else if v < u then .gt else order us vs

/-- Puts an item in its place, or answers none if its sequence is taken. -/
def insert (sequence : α → List β) (item : α) : List α → Option (List α)
  | [] => some [item]
  | least :: rest =>
      match order (sequence item) (sequence least) with
      | .lt => some (item :: least :: rest)
      | .eq => none
      | .gt => (insert sequence item rest).map (least :: ·)

/-- Takes the item of a sequence out, or answers none if there is no such item. -/
def remove (sequence : α → List β) (taken : List β) : List α → Option (List α)
  | [] => none
  | least :: rest =>
      match order taken (sequence least) with
      | .lt => none
      | .eq => some rest
      | .gt => (remove sequence taken rest).map (least :: ·)

end SentenceBreaks.Ascending
