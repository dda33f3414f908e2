import Enclave.Agent.Fixtures
import Enclave.Lib.Run

/-! # Captures of one index

Captures of `fetch-interceptor.ts` on one file: each reads the index, sets its entry and writes the
whole index again, and awaits between.  While a write is open the file holds no index, and what two
writes at once leave, or a read that meets one, is up to the file system.

A capture that is logged stays in the index if the file still holds what the capture has read when
it opens it, and nothing but a JSON object is in it (`replay_of_run`).  Captures that overlap lose
each other's entries, and an index that is an array keeps none (`entries_lost`). -/

namespace Enclave.Agent.Fixture

open Facilitator
open Json (Value)
open JsValue (prop)

/-! ### The machine -/

/-- What a capture waits for, or how it has ended; `disturbed` if a write was open at the same
time. -/
inductive CapturePhase where
  | reading (disturbed : Bool)
  /-- `mkdir` and the opening of the file. -/
  | opening (read : JsValue)
  | writing (read : JsValue) (disturbed : Bool)
  | captured
  | failed

/-- A capture, with the time on its entry. -/
structure Capture where
  payment : Payment
  generatedAt : String
  phase : CapturePhase

/-- The file, its captures, and what was logged as captured, the last first. -/
structure Captures where
  file : JsValue
  captures : List Capture
  logged : List (Payment × String)

/-- What happens.  `content` is what is found in the file where writes have met. -/
inductive CaptureEvent where
  | settled (p : Payment) (generatedAt : String)
  | read (c : ℕ) (content : JsValue)
  /-- `readFile` fails. -/
  | unreadable (c : ℕ)
  | opened (c : ℕ)
  | written (c : ℕ) (content : JsValue)
  /-- `mkdir` or `writeFile` fails. -/
  | failed (c : ℕ) (content : JsValue)

def Captures.boot (file : JsValue) : Captures := ⟨file, [], []⟩

def CapturePhase.isWriting : CapturePhase → Bool
  | .writing _ _ => true
  | _ => false

/-- A write is open. -/
def Captures.writing (s : Captures) : Bool := s.captures.any fun k => k.phase.isWriting

/-- A write is opened meanwhile. -/
def Capture.disturb (k : Capture) : Capture :=
  match k.phase with
  | .reading _ => { k with phase := .reading true }
  | .writing read _ => { k with phase := .writing read true }
  | _ => k

/-- `currentIndex[url] = capturedEntry`. -/
def Capture.index (k : Capture) (read : JsValue) : Option Value :=
  currentIndex read k.payment.url (capturedEntry k.payment k.generatedAt)

/-- A capture that has read the index. -/
def Capture.afterRead (k : Capture) (read : JsValue) : CapturePhase :=
  if (k.index read).isSome then .opening read else .failed

/-- The captures when one of them goes on. -/
def Captures.setPhase (s : Captures) (c : ℕ) (k : Capture) (phase : CapturePhase) : List Capture :=
  s.captures.set c { k with phase := phase }

/-- The captures when one of them opens the file. -/
def Captures.openFor (s : Captures) (c : ℕ) (k : Capture) (read : JsValue) : List Capture :=
  (s.captures.map Capture.disturb).set c { k with phase := .writing read s.writing }

variable (num : Numerals)

def Captures.next (s : Captures) : CaptureEvent → Option Captures
  | .settled p generatedAt =>
      some { s with captures := s.captures ++ [⟨p, generatedAt, .reading s.writing⟩] }
  | .read c content => s.captures[c]?.bind fun k =>
      match k.phase with
      | .reading disturbed => some { s with
          captures := s.setPhase c k (k.afterRead (if disturbed then content else s.file)) }
      | _ => none
  | .unreadable c => s.captures[c]?.bind fun k =>
      match k.phase with
      | .reading _ => some { s with captures := s.setPhase c k (k.afterRead none) }
      | _ => none
  | .opened c => s.captures[c]?.bind fun k =>
      match k.phase with
      | .opening read => some { s with file := none, captures := s.openFor c k read }
      | _ => none
  | .written c content => s.captures[c]?.bind fun k =>
      match k.phase with
      | .writing read disturbed => some {
          file := if disturbed then content else (k.index read).map (JsValue.rewritten num)
          captures := s.setPhase c k .captured
          logged := (k.payment, k.generatedAt) :: s.logged }
      | _ => none
  | .failed c content => s.captures[c]?.bind fun k =>
      match k.phase with
      | .opening _ => some { s with captures := s.setPhase c k .failed }
      | .writing _ _ => some { s with file := content, captures := s.setPhase c k .failed }
      | _ => none

def Captures.Step (s : Captures) (e : CaptureEvent) (s' : Captures) : Prop :=
  s.next num e = some s'

/-- The file is opened when no other write is open and it still holds what the capture has read,
which can be merged; and no write fails. -/
def Captures.Undisturbed (s : Captures) : CaptureEvent → Prop
  | .opened c => s.writing = false ∧ ∀ k read, s.captures[c]? = some k →
      k.phase = .opening read → read = s.file ∧ Mergeable num read
  | .failed c _ => ∀ k, s.captures[c]? = some k → k.phase.isWriting = false
  | _ => True

/-- The last payment that was logged for a URL. -/
def Captures.last (s : Captures) (url : String) : Option (Payment × String) :=
  s.logged.find? fun l => l.1.url = url

/-! ### What a run keeps -/

/-- An index has the entry of every URL that was logged last, and the others as `file` has them. -/
def Keeps (file : JsValue) (s : Captures) (index : JsValue) : Prop :=
  ∀ url, (∀ p generatedAt, s.last url = some (p, generatedAt) →
      prop index url = some (capturedEntry p generatedAt)) ∧
    (s.last url = none → prop index url = prop file url)

/-- The file keeps the entries while no write is open.  A write is alone, and what it started from
keeps them. -/
structure Captures.Kept (num : Numerals) (file : JsValue) (s : Captures) : Prop where
  holds : s.writing = false → Keeps file s s.file
  writes : ∀ {c : ℕ} {k : Capture} {read : JsValue} {disturbed : Bool}, s.captures[c]? = some k →
    k.phase = .writing read disturbed → disturbed = false ∧ Keeps file s read ∧
      Mergeable num read ∧
      ∀ {c' : ℕ} {k' : Capture}, c' ≠ c → s.captures[c']? = some k' → k'.phase.isWriting = false

variable {num} {file : JsValue} {s s' : Captures} {c : ℕ} {k : Capture} {e : CaptureEvent}

theorem writing_eq_false : s.writing = false ↔
    ∀ {c : ℕ} {k : Capture}, s.captures[c]? = some k → k.phase.isWriting = false := by
  rw [Captures.writing, List.any_eq_false]
  constructor
  · exact fun h c k hk => Bool.eq_false_iff.mpr (h k (List.mem_of_getElem? hk))
  · intro h k hk
    obtain ⟨c, hc⟩ := List.getElem?_of_mem hk
    exact Bool.eq_false_iff.mp (h hc)

theorem isWriting_disturb (k : Capture) : k.disturb.phase.isWriting = k.phase.isWriting := by
  unfold Capture.disturb
  split <;> rename_i h <;> simp [h, CapturePhase.isWriting]

theorem Captures.Kept.setPhase (hs : s.Kept num file) {phase : CapturePhase}
    (hk : s.captures[c]? = some k) (hbefore : k.phase.isWriting = false)
    (hafter : phase.isWriting = false) :
    ({ s with captures := s.setPhase c k phase } : Captures).Kept num file := by
  have hsame : ∀ {c' : ℕ} {k' : Capture}, (s.setPhase c k phase)[c']? = some k' →
      k'.phase.isWriting = true → s.captures[c']? = some k' := by
    intro c' k' hk' hwriting
    obtain ⟨-, rfl⟩ | ⟨-, hold⟩ := (getElem?_set_some hk).mp hk'
    · rw [hafter] at hwriting
      cases hwriting
    · exact hold
  constructor
  · intro hnone
    refine hs.holds (writing_eq_false.mpr fun {c' k'} hk' => ?_)
    by_cases hc : c' = c
    · subst hc
      rw [hk] at hk'
      cases hk'
      exact hbefore
    · exact writing_eq_false.mp hnone ((getElem?_set_some hk).mpr (.inr ⟨hc, hk'⟩))
  · intro c' k' read disturbed hk' hphase
    have hold := hsame hk' (by rw [hphase]; rfl)
    obtain ⟨hdisturbed, hkeeps, hmerge, hother⟩ := hs.writes hold hphase
    refine ⟨hdisturbed, hkeeps, hmerge, fun {c'' k''} hc hk'' => ?_⟩
    by_contra hwriting
    rw [Bool.not_eq_false] at hwriting
    rw [hother hc (hsame hk'' hwriting)] at hwriting
    cases hwriting

theorem Captures.Kept.settled (hs : s.Kept num file) (p : Payment) (generatedAt : String) :
    ({ s with captures := s.captures ++ [⟨p, generatedAt, .reading s.writing⟩] } : Captures).Kept
      num file := by
  have hsame : ∀ {c : ℕ} {k : Capture},
      (s.captures ++ [⟨p, generatedAt, .reading s.writing⟩])[c]? = some k →
      k.phase.isWriting = true → s.captures[c]? = some k := by
    intro c k hk hwriting
    obtain hold | ⟨-, rfl⟩ := getElem?_snoc.mp hk
    · exact hold
    · cases hwriting
  constructor
  · intro hnone
    refine hs.holds (writing_eq_false.mpr fun {c k} hk => ?_)
    exact writing_eq_false.mp hnone (getElem?_snoc.mpr (.inl hk))
  · intro c k read disturbed hk hphase
    obtain ⟨hdisturbed, hkeeps, hmerge, hother⟩ := hs.writes (hsame hk (by rw [hphase]; rfl)) hphase
    refine ⟨hdisturbed, hkeeps, hmerge, fun {c' k'} hc hk' => ?_⟩
    by_contra hwriting
    rw [Bool.not_eq_false] at hwriting
    rw [hother hc (hsame hk' hwriting)] at hwriting
    cases hwriting

theorem Captures.Kept.opened (hs : s.Kept num file) {read : JsValue} (hk : s.captures[c]? = some k)
    (hnone : s.writing = false) (hread : read = s.file) (hmerge : Mergeable num read) :
    ({ s with file := none, captures := s.openFor c k read } : Captures).Kept num file := by
  have hdisturb : (s.captures.map Capture.disturb)[c]? = some k.disturb := by
    rw [List.getElem?_map, hk, Option.map_some]
  have hother : ∀ {c' : ℕ} {k' : Capture}, c' ≠ c → (s.openFor c k read)[c']? = some k' →
      k'.phase.isWriting = false := by
    intro c' k' hc hk'
    obtain ⟨heq, -⟩ | ⟨-, hold⟩ := (getElem?_set_some hdisturb).mp hk'
    · exact absurd heq hc
    · rw [List.getElem?_map] at hold
      obtain ⟨k₀, hk₀, rfl⟩ := Option.map_eq_some_iff.mp hold
      rw [isWriting_disturb]
      exact writing_eq_false.mp hnone hk₀
  constructor
  · intro hclosed
    have hopen := writing_eq_false.mp hclosed ((getElem?_set_some hdisturb).mpr (.inl ⟨rfl, rfl⟩))
    cases hopen
  · intro c' k' read' disturbed hk' hphase
    obtain ⟨rfl, rfl⟩ | ⟨hc, -⟩ := (getElem?_set_some hdisturb).mp hk'
    · cases hphase
      exact ⟨hnone, hread ▸ hs.holds hnone, hmerge, hother⟩
    · have hwriting := hother hc hk'
      rw [hphase] at hwriting
      cases hwriting

theorem Captures.Kept.written (hs : s.Kept num file) {read content : JsValue} {disturbed : Bool}
    (hk : s.captures[c]? = some k) (hphase : k.phase = .writing read disturbed) :
    ({ file := if disturbed then content else (k.index read).map (JsValue.rewritten num)
       captures := s.setPhase c k .captured
       logged := (k.payment, k.generatedAt) :: s.logged } : Captures).Kept num file := by
  obtain ⟨rfl, hkeeps, hmerge, hother⟩ := hs.writes hk hphase
  obtain ⟨fields, hindex, hrewritten, hentry, hothers⟩ :=
    currentIndex_of_mergeable k.payment k.generatedAt hmerge
  have hfile : (k.index read).map (JsValue.rewritten num) = some (.object fields) := by
    rw [Capture.index, hindex, Option.map_some, hrewritten]
  have hnone : ∀ {c' : ℕ} {k' : Capture}, (s.setPhase c k .captured)[c']? = some k' →
      k'.phase.isWriting = false := by
    intro c' k' hk'
    obtain ⟨-, rfl⟩ | ⟨hc, hold⟩ := (getElem?_set_some hk).mp hk'
    · rfl
    · exact hother hc hold
  constructor
  · rintro - url
    dsimp only
    rw [if_neg Bool.false_ne_true, hfile]
    by_cases hurl : k.payment.url = url
    · subst hurl
      constructor
      · intro p generatedAt hlast
        rw [Captures.last, List.find?_cons_of_pos (by simp)] at hlast
        cases hlast
        exact hentry
      · intro hlast
        rw [Captures.last, List.find?_cons_of_pos (by simp)] at hlast
        cases hlast
    · rw [Captures.last, List.find?_cons_of_neg (by simpa using hurl), hothers url (Ne.symm hurl)]
      exact hkeeps url
  · intro c' k' read' disturbed hk' hphase'
    have hwriting := hnone hk'
    rw [hphase'] at hwriting
    cases hwriting

/-- **Every event keeps the entries**, where no write is disturbed. -/
theorem Captures.Kept.step (hs : s.Kept num file) (hstep : s.Step num e s')
    (hundisturbed : s.Undisturbed num e) : s'.Kept num file := by
  have hafter : ∀ (k : Capture) (read : JsValue), (k.afterRead read).isWriting = false := by
    intro k read
    unfold Capture.afterRead
    split <;> rfl
  cases e with
  | settled p generatedAt =>
      cases hstep
      exact hs.settled p generatedAt
  | read c content =>
      obtain ⟨k, hk, hstep⟩ := Option.bind_eq_some_iff.mp hstep
      split at hstep
      · rename_i hphase
        cases hstep
        exact hs.setPhase hk (by rw [hphase]; rfl) (hafter k _)
      · cases hstep
  | unreadable c =>
      obtain ⟨k, hk, hstep⟩ := Option.bind_eq_some_iff.mp hstep
      split at hstep
      · rename_i hphase
        cases hstep
        exact hs.setPhase hk (by rw [hphase]; rfl) (hafter k _)
      · cases hstep
  | opened c =>
      obtain ⟨k, hk, hstep⟩ := Option.bind_eq_some_iff.mp hstep
      split at hstep
      · rename_i hphase
        cases hstep
        obtain ⟨hread, hmerge⟩ := hundisturbed.2 k _ hk hphase
        exact hs.opened hk hundisturbed.1 hread hmerge
      · cases hstep
  | written c content =>
      obtain ⟨k, hk, hstep⟩ := Option.bind_eq_some_iff.mp hstep
      split at hstep
      · rename_i hphase
        cases hstep
        exact hs.written hk hphase
      · cases hstep
  | failed c content =>
      obtain ⟨k, hk, hstep⟩ := Option.bind_eq_some_iff.mp hstep
      split at hstep
      · rename_i hphase
        cases hstep
        exact hs.setPhase hk (by rw [hphase]; rfl) rfl
      · rename_i hphase
        have hwriting := hundisturbed k hk
        rw [hphase] at hwriting
        cases hwriting
      · cases hstep

/-- **Captured entries stay**: in every run without a disturbed write the last entry that was logged
for a URL is in the file and is decoded to what its payment posted, and what was never logged is as
it was. -/
theorem replay_of_run {events : List CaptureEvent}
    (hrun : Run (fun s e s' => s.Step num e s' ∧ s.Undisturbed num e) (Captures.boot file) events s)
    (hidle : s.writing = false) (url : String) :
    (∀ p generatedAt, s.last url = some (p, generatedAt) →
      prop s.file url = some (capturedEntry p generatedAt) ∧
        replay num s.file url = some (.ok p.posted)) ∧
    (s.last url = none → prop s.file url = prop file url) := by
  have hboot : (Captures.boot file).Kept num file :=
    ⟨fun _ url => ⟨fun p generatedAt => nofun, fun _ => rfl⟩, nofun⟩
  have hs : s.Kept num file := hrun.invariant (fun _ _ _ hs hstep => hs.step hstep.1 hstep.2) hboot
  obtain ⟨hlogged, hothers⟩ := hs.holds hidle url
  refine ⟨fun p generatedAt hlast => ?_, hothers⟩
  have hurl : p.url = url := by simpa using List.find?_some hlast
  have hentry := hlogged p generatedAt hlast
  subst hurl
  exact ⟨hentry, replay_of_entry p generatedAt hentry⟩

/-! ### Captures one after another -/

theorem step_read (hk : s.captures[c]? = some k) (hphase : k.phase = .reading false)
    (content : JsValue) : s.Step num (.read c content)
      { s with captures := s.setPhase c k (k.afterRead s.file) } := by
  simp only [Captures.Step, Captures.next, hk, hphase, Option.bind_some]
  rfl

theorem step_opened {read : JsValue} (hk : s.captures[c]? = some k)
    (hphase : k.phase = .opening read) :
    s.Step num (.opened c) { s with file := none, captures := s.openFor c k read } := by
  simp only [Captures.Step, Captures.next, hk, hphase, Option.bind_some]

theorem step_written {read : JsValue} (hk : s.captures[c]? = some k)
    (hphase : k.phase = .writing read false) (content : JsValue) :
    s.Step num (.written c content) ⟨(k.index read).map (JsValue.rewritten num),
      s.setPhase c k .captured, (k.payment, k.generatedAt) :: s.logged⟩ := by
  simp only [Captures.Step, Captures.next, hk, hphase, Option.bind_some]
  rfl

/-- **A capture that meets no other one** is undisturbed. -/
theorem run_capture (hnone : s.writing = false) (hmerge : Mergeable num s.file) (p : Payment)
    (generatedAt : String) : ∃ s', Run (fun s e s' => s.Step num e s' ∧ s.Undisturbed num e) s
      [.settled p generatedAt, .read s.captures.length none, .opened s.captures.length,
        .written s.captures.length none] s' ∧
    s'.writing = false ∧ Mergeable num s'.file ∧ s'.captures.length = s.captures.length + 1 ∧
    s'.logged = (p, generatedAt) :: s.logged := by
  have hlast : ∀ {l : List Capture} {k : Capture} {n : ℕ}, l.length = n → (l ++ [k])[n]? = some k :=
    fun hlen => getElem?_snoc.mpr (.inr ⟨hlen.symm, rfl⟩)
  have hset : ∀ {l : List Capture} {k k' : Capture} {n : ℕ}, l.length = n →
      (l ++ [k]).set n k' = l ++ [k'] := by
    intro l k k' n hlen
    rw [List.set_append_right _ _ (le_of_eq hlen), hlen, Nat.sub_self, List.set_cons_zero]
  obtain ⟨fields, hindex, hrewritten, -, -⟩ := currentIndex_of_mergeable p generatedAt hmerge
  have hafter : (Capture.mk p generatedAt (.reading false)).afterRead s.file =
      .opening s.file := by
    rw [Capture.afterRead, Capture.index, hindex, Option.isSome_some, if_pos rfl]
  let s₁ : Captures := { s with captures := s.captures ++ [⟨p, generatedAt, .reading false⟩] }
  let s₂ : Captures := { s with captures := s.captures ++ [⟨p, generatedAt, .opening s.file⟩] }
  have hsettled : s.Step num (.settled p generatedAt) s₁ := by
    unfold s₁
    rw [← hnone]
    rfl
  have hread : s₁.Step num (.read s.captures.length none) s₂ := by
    have h := @step_read num s₁ s.captures.length _ (hlast rfl) rfl none
    rwa [Captures.setPhase, hset rfl, hafter] at h
  have hclosed : s₂.writing = false := by
    rw [Captures.writing, List.any_append, List.any_cons, List.any_nil]
    exact (Bool.or_false _).trans hnone
  let s₃ : Captures := { s with
    file := none
    captures := s.captures.map Capture.disturb ++ [⟨p, generatedAt, .writing s.file false⟩] }
  have hopened : s₂.Step num (.opened s.captures.length) s₃ := by
    have h := @step_opened num s₂ s.captures.length _ _ (hlast rfl) rfl
    rwa [Captures.openFor, List.map_append, List.map_singleton, hset (List.length_map _),
      hclosed] at h
  let s₄ : Captures := ⟨some (.object fields),
    s.captures.map Capture.disturb ++ [⟨p, generatedAt, .captured⟩], (p, generatedAt) :: s.logged⟩
  have hwritten : s₃.Step num (.written s.captures.length none) s₄ := by
    have h := @step_written num s₃ s.captures.length _ _ (hlast (List.length_map _)) rfl none
    rwa [Captures.setPhase, hset (List.length_map _), Capture.index, hindex, Option.map_some,
      hrewritten] at h
  have hundisturbed : s₂.Undisturbed num (.opened s.captures.length) := by
    refine ⟨hclosed, fun k read hk hphase => ?_⟩
    rw [hlast rfl] at hk
    cases hk
    cases hphase
    exact ⟨rfl, hmerge⟩
  refine ⟨s₄, .cons ⟨hsettled, trivial⟩ (.cons ⟨hread, trivial⟩ (.cons ⟨hopened, hundisturbed⟩
    (.cons ⟨hwritten, trivial⟩ (.nil _)))), ?_, .inr ⟨fields, rfl, hrewritten⟩, ?_, rfl⟩
  · rw [Captures.writing, List.any_append, List.any_map, List.any_cons, List.any_nil]
    refine (Bool.or_false _).trans ?_
    rw [← hnone, Captures.writing]
    exact congrArg s.captures.any (funext isWriting_disturb)
  · rw [List.length_append, List.length_map, List.length_singleton]

/-! ### Two payments -/

def otherPayment : Payment :=
  { samplePayment with url := "https://example.org/other", url_ne := by decide }

/-- Captures that overlap, and an index that is an array: a capture is logged, and its entry is not
there. -/
theorem entries_lost :
    (∃ s, Run (Captures.Step Untyped.sampleNumerals) (Captures.boot none)
        [.settled samplePayment "", .settled otherPayment "", .read 0 none, .read 1 none, .opened 0,
          .written 0 none, .opened 1, .written 1 none] s ∧
      s.writing = false ∧ s.last samplePayment.url = some (samplePayment, "") ∧
      replay Untyped.sampleNumerals s.file samplePayment.url = none) ∧
    ∃ s, Run (Captures.Step Untyped.sampleNumerals) (Captures.boot (some (.array [])))
        [.settled samplePayment "", .read 0 none, .opened 0, .written 0 none] s ∧
      s.writing = false ∧ s.last samplePayment.url = some (samplePayment, "") ∧
      replay Untyped.sampleNumerals s.file samplePayment.url = none := by
  have hreplay : ∀ file : JsValue, prop file samplePayment.url = none →
      replay Untyped.sampleNumerals file samplePayment.url = none := by
    intro file hprop
    unfold replay
    rw [hprop]
    rfl
  constructor
  · obtain ⟨fields, hindex, hrewritten, -, hothers⟩ := @currentIndex_of_mergeable
      Untyped.sampleNumerals otherPayment "" none (.inl rfl)
    refine ⟨_, Run.of_exec rfl, rfl, rfl, hreplay _ ?_⟩
    have hfile : ((Capture.mk otherPayment "" .captured).index none).map
        (JsValue.rewritten Untyped.sampleNumerals) = some (.object fields) := by
      rw [Capture.index, hindex, Option.map_some, hrewritten]
    exact (congrArg (fun file => prop file samplePayment.url) hfile).trans
      (hothers samplePayment.url (by decide))
  · refine ⟨_, Run.of_exec rfl, rfl, rfl, hreplay _ ?_⟩
    have hfile : ((Capture.mk samplePayment "" .captured).index (some (.array []))).map
        (JsValue.rewritten Untyped.sampleNumerals) = some (.array []) := by
      simp [Capture.index, currentIndex, JsValue.rewritten, JsValue.rewrittenItems]
    exact congrArg (fun file => prop file samplePayment.url) hfile

/-- Two captures on an index with a third entry. -/
theorem replay_of_run_sample : ∃ s : Captures,
    prop s.file "https://example.org/third" = some .null ∧
    replay Untyped.sampleNumerals s.file samplePayment.url = some (.ok samplePayment.posted) ∧
    replay Untyped.sampleNumerals s.file otherPayment.url = some (.ok otherPayment.posted) := by
  have hmerge : Mergeable Untyped.sampleNumerals
      (some (.object [("https://example.org/third", .null)])) :=
    .inr ⟨_, rfl, by simp [JsValue.rewritten, JsValue.rewrittenFields]⟩
  obtain ⟨s, hrun, hnone, hmerge', -, hlogged⟩ := run_capture
    (s := Captures.boot (some (.object [("https://example.org/third", .null)]))) rfl hmerge
    samplePayment "1"
  obtain ⟨s', hrun', hnone', -, -, hlogged'⟩ := run_capture hnone hmerge' otherPayment "2"
  have hall := hrun.append hrun'
  have hlogged₂ : s'.logged = [(otherPayment, "2"), (samplePayment, "1")] := by
    rw [hlogged', hlogged]
    rfl
  have hlast : s'.last samplePayment.url = some (samplePayment, "1") ∧
      s'.last otherPayment.url = some (otherPayment, "2") ∧
      s'.last "https://example.org/third" = none := by
    unfold Captures.last
    rw [hlogged₂]
    exact ⟨rfl, rfl, rfl⟩
  exact ⟨s', (replay_of_run hall hnone' _).2 hlast.2.2,
    ((replay_of_run hall hnone' _).1 _ _ hlast.1).2,
    ((replay_of_run hall hnone' _).1 _ _ hlast.2.1).2⟩

end Enclave.Agent.Fixture
