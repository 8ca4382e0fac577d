import Mathlib.Data.Finset.Card
import ScanDigest.Proofs.Inquiries

/-!
# Memos are transparent

Whoever resolves URLs through a memo is answered as by the service itself (`Memo.replies_answers`),
and the service is asked once for each different URL, where it first occurs. Which URLs those are is
told twice: by what the memo keeps (`Memo.asked`), and by a service that notes every question it is
asked (`Memo.noting`). The two agree after every step (`Memo.run_resolveM_noting`), so they agree
after a whole run (`Memo.run_resolveAllM_noting`).
-/

set_option autoImplicit false

namespace ScanDigest

namespace Memo

variable (lookup : Lookup)

/-! ## Answers and counts -/

/-- What a memo answers to some URLs, one after the other, each time with the number of questions
that it has asked by then. -/
def replies (m : Memo) : List String → List (Except Failure ComponentVulnerabilities × Nat)
  | [] => []
  | url :: urls =>
    let (answer, m') := m.resolve lookup url
    (answer, m'.calls) :: m'.replies urls

/-- The failure of a service is passed on with its URL and its text. -/
theorem passOn_eq (url : String) (answer : Except Failure ComponentVulnerabilities) :
    passOn url answer = answer.mapError fun e => .lookupFailed url e.message := by
  cases answer <;> rfl

theorem resolveAll_cons (m : Memo) (url : String) (urls : List String) :
    resolveAll lookup m (url :: urls) = resolveAll lookup (m.resolve lookup url).2 urls := rfl

/-- A run answers each URL from what was known before, or else as the service does. The number that
stands with the answer counts the questions of the run up to there. -/
theorem replies_eq (m : Memo) (urls : List String) : m.replies lookup urls =
    urls.mapIdx fun i url =>
      (passOn url (m.answer lookup url), (resolveAll lookup m (urls.take (i + 1))).calls) := by
  induction urls generalizing m with
  | nil => rfl
  | cons url urls ih =>
    -- the memo grows on the way, and answers no URL otherwise for that
    obtain ⟨m', hm, hanswer⟩ := m.resolve_eq lookup url
    have hrest : ∀ us, resolveAll lookup m (url :: us) = resolveAll lookup m' us := by
      intro us
      rw [resolveAll_cons, hm]
    simp only [replies, hm, List.mapIdx_cons, List.take_succ_cons, hrest, ih, hanswer,
      List.take_zero]
    rfl

/-- A new memo has asked as often as there are different URLs. -/
theorem calls_resolveAll_eq_card (urls : List String) :
    (resolveAll lookup ∅ urls).calls = urls.toFinset.card := by
  have hsame : urls.eraseDups.toFinset = urls.toFinset := by
    ext url
    simp only [List.mem_toFinset, List.mem_eraseDups]
  rw [calls_resolveAll, asked_resolveAll, ← hsame,
    List.toFinset_card_of_nodup (nodup_eraseDups urls)]

/-! ## Questions -/

/-- The memo after some URLs. -/
def resolveAllM {M : Type → Type} [Monad M]
    (ask : String → M (Except Failure ComponentVulnerabilities)) (m : Memo) (urls : List String) :
    M Memo :=
  urls.foldlM (fun m url => Prod.snd <$> m.resolveM ask url) m

/-- A service that notes what it is asked, the last question last. -/
def noting (url : String) : StateM (List String) (Except Failure ComponentVulnerabilities) := do
  modify (· ++ [url])
  return lookup url

/-- What the service notes is what the memo has asked, after a step as before. -/
theorem run_resolveM_noting (m : Memo) (url : String) :
    (m.resolveM (noting lookup) url).run m.asked =
      pure (m.resolve lookup url, (m.resolve lookup url).2.asked) := by
  cases hl : m.answers.lookup url with
  | some answer =>
    rw [resolve_of_kept lookup m hl]
    simp only [resolveM, hl]
    rfl
  | none =>
    have hasked : asked ⟨(url, lookup url) :: m.answers, m.calls + 1⟩ = m.asked ++ [url] := by
      simp [asked]
    rw [resolve_of_new lookup m hl]
    simp only [resolveM, hl, hasked]
    rfl

theorem run_resolveAllM_noting (m : Memo) (urls : List String) :
    (resolveAllM (noting lookup) m urls).run m.asked =
      pure (resolveAll lookup m urls, (resolveAll lookup m urls).asked) := by
  induction urls generalizing m with
  | nil => rfl
  | cons url urls ih =>
    rw [resolveAll_cons, ← ih, resolveAllM, List.foldlM_cons, StateT.run_bind, StateT.run_map,
      run_resolveM_noting]
    rfl

end Memo

/-- **A memo is a transparent cache.** Each URL is answered as by the service, a failure with the
URL and the text of the failure, however often it comes. By then the memo has asked as often as
there were different URLs. Over all, both the memo and a service that notes its questions say that
each URL was asked for once, in the order in which they first occur. -/
theorem memo_transparent (lookup : Lookup) (urls : List String) :
    Memo.replies lookup ∅ urls = (urls.mapIdx fun i url =>
      ((lookup url).mapError fun e => .lookupFailed url e.message,
        (urls.take (i + 1)).toFinset.card)) ∧
    (Memo.resolveAll lookup ∅ urls).asked = urls.eraseDups ∧
    (Memo.resolveAllM (Memo.noting lookup) ∅ urls).run [] =
      pure (Memo.resolveAll lookup ∅ urls, urls.eraseDups) := by
  have hasked := Memo.asked_resolveAll lookup urls
  refine ⟨?_, hasked, ?_⟩
  · simp only [Memo.replies_eq, Memo.answer_empty, Memo.passOn_eq, Memo.calls_resolveAll_eq_card]
  · rw [← hasked]
    exact Memo.run_resolveAllM_noting lookup ∅ urls

/-- The service is down, which it says of each URL once and the memo says every time. -/
example :
    Memo.replies (fun _ => .error (.io "down")) ∅ ["/cv/1", "/cv/2", "/cv/1"] =
      [(.error (.lookupFailed "/cv/1" "io error: down"), 1),
        (.error (.lookupFailed "/cv/2" "io error: down"), 2),
        (.error (.lookupFailed "/cv/1" "io error: down"), 2)] := by
  rfl

end ScanDigest
