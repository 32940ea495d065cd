import RecordQuery.Proofs.Gateway
import RecordQuery.Proofs.Reading.Queries
/-!
# Answers seen through a view

Databases that look alike through a view give the same answers to every request whose query reads no
more than the view: the same records in the same order, the same count, and the same failures.
-/

namespace RecordQuery.View.Alike

open Gateway

variable {ι : Type} {catalog : Catalog ι} {s : Schema ι} {v : View catalog s} {db db' : Database}
  {limits : PageLimits} {request : Request} (h : v.Alike db db')

include h

/-- Finding a record answers the same. -/
theorem answerOfFind_eq {id : Scalar}
    (hq : ∀ q, Query.ofRequest catalog s limits request (some (s.key, id)) = .ok q → q.IsWithin v s) :
    answerOfFind catalog s limits db id request = answerOfFind catalog s limits db' id request := by
  rw [answerOfFind, answerOfFind]
  refine Outcome.bind_congr fun q hok => ?_
  rw [h.find_eq (hq q (Outcome.mapError_eq_ok_iff.1 hok))]

/-- Finding a record that satisfies a predicate answers the same. -/
theorem answerOfFindBy_eq {predicate : Predicate}
    (hq : predicate.check catalog .any s = .ok () → ∀ q, Query.ofRequest catalog s limits request = .ok q →
      { q with predicate := predicate.and q.predicate : Query }.IsWithin v s) :
    answerOfFindBy catalog s limits db predicate request =
      answerOfFindBy catalog s limits db' predicate request := by
  rw [answerOfFindBy, answerOfFindBy]
  refine Outcome.bind_congr fun _ hcheck => Outcome.bind_congr fun q hok => ?_
  rw [h.find_eq (hq (Outcome.mapError_eq_ok_iff.1 hcheck) q (Outcome.mapError_eq_ok_iff.1 hok))]

/-- A listing answers the same. -/
theorem answerOfList_eq
    (hq : ∀ q, Query.ofRequest catalog s limits request = .ok q → q.IsWithin v s) :
    answerOfList catalog s limits db request = answerOfList catalog s limits db' request := by
  rw [answerOfList, answerOfList]
  refine Outcome.bind_congr fun q hok => ?_
  have hw := hq q (Outcome.mapError_eq_ok_iff.1 hok)
  rw [h.find_eq hw, h.countOf_eq hw]

end RecordQuery.View.Alike
