import ScanDigest.Failure
import ScanDigest.Vulnerability.Detail

/-!
# Looking up vulnerabilities

A service answers for the URL of a component version. A `Memo` keeps its answers, failures too, so
that it is asked at most once for each URL.
-/

set_option autoImplicit false

namespace ScanDigest

/-- A service that knows the vulnerabilities of component versions. -/
abbrev Lookup := String → Except Failure ComponentVulnerabilities

/-- A catalog answers for every URL. -/
def Catalog.lookup (c : Catalog) : Lookup := fun url => .ok (c.resolve url)

/-- What was asked of a service, and what it answered; the last question first. -/
structure Memo where
  answers : List (String × Except Failure ComponentVulnerabilities)
  /-- How often the service was asked. -/
  calls : Nat

namespace Memo

def empty : Memo := ⟨[], 0⟩

instance : EmptyCollection Memo := ⟨empty⟩

/-- The URLs that the service was asked for, in order. -/
def asked (m : Memo) : List String := (m.answers.map Prod.fst).reverse

/-- An answer as it is passed on: a failure says for which URL. -/
def passOn (url : String) : Except Failure ComponentVulnerabilities →
    Except Failure ComponentVulnerabilities
  | .ok info => .ok info
  | .error e => .error (.lookupFailed url e.message)

/-- The answer for a URL, kept or new, by a service that may do more than answer. It is asked where
no answer is kept, and nowhere else. -/
def resolveM {M : Type → Type} [Monad M] (ask : String → M (Except Failure ComponentVulnerabilities))
    (m : Memo) (url : String) : M (Except Failure ComponentVulnerabilities × Memo) :=
  match m.answers.lookup url with
  | some answer => pure (passOn url answer, m)
  | none => do
    let answer ← ask url
    return (passOn url answer, ⟨(url, answer) :: m.answers, m.calls + 1⟩)

/-- The answer for a URL, by a service that does nothing but answer. -/
def resolve (lookup : Lookup) (m : Memo) (url : String) :
    Except Failure ComponentVulnerabilities × Memo :=
  Id.run (m.resolveM (fun url => pure (lookup url)) url)

end Memo

end ScanDigest
