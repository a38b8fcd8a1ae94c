import EpuckFirmware.History
import EpuckFirmware.MessageBus

/-!
# Requests to play a sound

The audio thread waits for a request, plays the sound and publishes the result. The shell
publishes a request and then waits for a result; the virtual machine only publishes. Both
topics hold one message, and messages do not say which request they are about.

The requests are numbered here in the order in which they are published, and a result
carries the number of its request. The threads do not look at the numbers.
-/

namespace Audio

open StepMachine History MessageBus

/-- `audio_play_status_t`. -/
inductive AudioPlayStatus
  | ok
  | fileNotFound
  | wavDecode
  deriving DecidableEq

/-- A message, and the number of the request that it is about. -/
structure Numbered (α : Type) where
  number : ℕ
  content : α
  deriving DecidableEq

/-- The `path` of `audio_play_request_t`, without the zeros at its end. -/
abbrev Path : Type := List UInt8

/-- The length of `path`. -/
def pathSize : ℕ := 64

/-- `strncpy` of the argument of the shell command. -/
def cmdPlayPath (arg : Path) : Path := arg.take (pathSize - 1)

/-- `snprintf` of the name of a sound, which has room for a zero in the length that it
is given. -/
def soundPlayPath (soundId : UInt16) : Path :=
  ("/p" ++ toString soundId.toNat ++ ".wav").toUTF8.data.toList.take (pathSize - 1 - 1)

/-- Where `audio_thd_main` is. -/
inductive AudioThd
  /-- Before `/audio/play/request` is advertised. -/
  | start
  /-- Before `/audio/play/result` is advertised. -/
  | advertised
  /-- Before the call of `messagebus_topic_wait`. -/
  | loop
  /-- In `messagebus_topic_wait`, until a request is published. -/
  | waiting
  /-- In `messagebus_topic_wait`, before the request is read. -/
  | woken
  /-- A request was taken, and the sound is played. -/
  | taken (request : Numbered Path)
  /-- Before the result is published. -/
  | reply (request : Numbered Path) (status : AudioPlayStatus)
  deriving DecidableEq

/-- Where the shell is in `cmd_play`. -/
inductive ShellThd
  | idle
  /-- The request of the given number was published, before `messagebus_topic_wait`. -/
  | published (number : ℕ)
  /-- In `messagebus_topic_wait`, until a result is published. -/
  | waiting (number : ℕ)
  /-- In `messagebus_topic_wait`, before the result is read. -/
  | woken (number : ℕ)
  deriving DecidableEq

/-- The request that the shell has no result for. -/
def ShellThd.outstanding : ShellThd → Option ℕ
  | published number => some number
  | waiting number => some number
  | _ => none

/-- The topics and the threads. -/
structure AudioSystem where
  /-- `/audio/play/request`. -/
  request : Topic (Numbered Path)
  /-- `/audio/play/result`. -/
  result : Topic (Numbered AudioPlayStatus)
  audioThd : AudioThd
  shellThd : ShellThd
  /-- The number of requests that were published. -/
  requests : ℕ

def AudioSystem.init : AudioSystem := ⟨.init, .init, .start, .idle, 0⟩

/-- Both topics are found. -/
def AudioSystem.found (s : AudioSystem) : Bool := s.request.advertised && s.result.advertised

/-- The publication of a request, which wakes the audio thread if it waits. -/
def AudioSystem.publishRequest (s : AudioSystem) (path : Path) : AudioSystem :=
  { s with
    request := s.request.publish ⟨s.requests, path⟩
    audioThd := if s.audioThd = .waiting then .woken else s.audioThd
    requests := s.requests + 1 }

/-- The shell when a result is published. -/
def ShellThd.wake : ShellThd → ShellThd
  | waiting number => woken number
  | shell => shell

/-- The publication of a result, which wakes the shell if it waits. -/
def AudioSystem.publishResult (s : AudioSystem) (result : Numbered AudioPlayStatus) :
    AudioSystem :=
  { s with result := s.result.publish result, shellThd := s.shellThd.wake }

/-- The result of a request, from what `f_open` and `wav_read_header` find. -/
def playStatus (opened decoded : Bool) : AudioPlayStatus :=
  if !opened then .fileNotFound else if !decoded then .wavDecode else .ok

/-- A step of somebody. A thread in `messagebus_topic_wait` stays there until it is woken. -/
inductive AudioStep
  /-- A step of `audio_thd_main`, and whether the file can be opened and decoded, if it is
  the step that plays it. -/
  | audioThd (opened decoded : Bool)
  /-- A step of the shell, with the arguments of `cmd_play` if it is called. -/
  | shell (argv : List Path)
  /-- `AsebaNative_sound_play`. -/
  | soundPlay (soundId : UInt16)

def AudioSystem.audioStep (s : AudioSystem) (opened decoded : Bool) : AudioSystem :=
  match s.audioThd with
  | .start => { s with request := s.request.advertise, audioThd := .advertised }
  | .advertised => { s with result := s.result.advertise, audioThd := .loop }
  | .loop => { s with audioThd := .waiting }
  | .waiting => s
  | .woken =>
    match s.request.message with
    | some request => { s with audioThd := .taken request }
    | none => s
  | .taken request => { s with audioThd := .reply request (playStatus opened decoded) }
  | .reply request status =>
    { s.publishResult ⟨request.number, status⟩ with audioThd := .loop }

def AudioSystem.shellStep (s : AudioSystem) (argv : List Path) : AudioSystem :=
  match s.shellThd with
  | .idle =>
    if s.found then
      match argv with
      | [arg] => { s.publishRequest (cmdPlayPath arg) with shellThd := .published s.requests }
      | _ => s
    else s
  | .published number => { s with shellThd := .waiting number }
  | .waiting _ => s
  | .woken _ => { s with shellThd := .idle }

def AudioSystem.soundStep (s : AudioSystem) (soundId : UInt16) : AudioSystem :=
  if s.found then s.publishRequest (soundPlayPath soundId) else s

def AudioSystem.step (s : AudioSystem) : AudioStep → Except Empty AudioSystem
  | .audioThd opened decoded => .ok (s.audioStep opened decoded)
  | .shell argv => .ok (s.shellStep argv)
  | .soundPlay soundId => .ok (s.soundStep soundId)

/-! ## What happens -/

/-- What happens to a request. -/
inductive AudioEvent
  | published (number : ℕ)
  /-- An iteration of the audio loop takes it. -/
  | taken (number : ℕ)
  /-- `cmd_play` returns with a result. -/
  | returned (number : ℕ) (result : Option (Numbered AudioPlayStatus))
  deriving DecidableEq

/-- The step publishes a request. -/
def AudioSystem.requesting (s : AudioSystem) : AudioStep → Bool
  | .audioThd _ _ => false
  | .shell argv => s.shellThd = .idle && s.found && argv.length = 1
  | .soundPlay _ => s.found

/-- What a step does. -/
def AudioSystem.shows (s : AudioSystem) (i : AudioStep) : List AudioEvent :=
  if s.requesting i then [.published s.requests]
  else match i with
    | .audioThd _ _ =>
      match s.audioThd with
      | .woken => (s.request.message.map (fun m => AudioEvent.taken m.number)).toList
      | _ => []
    | .shell _ =>
      match s.shellThd with
      | .woken number => [.returned number s.result.message]
      | _ => []
    | .soundPlay _ => []

/-- Some continuation of the run takes the request. -/
def CanBeTaken (s : AudioSystem × List AudioEvent) (number : ℕ) : Prop :=
  ∃ steps s', run (recorded AudioSystem.step AudioSystem.shows) s steps = .ok s'
    ∧ .taken number ∈ s'.2

/-- **No request is lost**: a request was taken by one iteration of the audio loop, or can
still be taken. -/
def NoneLost (s : AudioSystem × List AudioEvent) : Prop :=
  ∀ number, .published number ∈ s.2 →
    s.2.count (.taken number) = 1 ∨ .taken number ∉ s.2 ∧ CanBeTaken s number

/-- **`cmd_play` returns the result of its request.** -/
def OwnResult (s : AudioSystem × List AudioEvent) : Prop :=
  ∀ number result, .returned number result ∈ s.2 → ∃ r, result = some r ∧ r.number = number

/-- **The steps that keep requests and results apart**: a request is published while the
audio thread waits, and a result while the shell waits or does not need one. -/
def KeepsApart (s : AudioSystem × List AudioEvent) (i : AudioStep) : Prop :=
  (s.1.requesting i = true → s.1.audioThd = .waiting)
    ∧ ((∃ opened decoded, i = .audioThd opened decoded) →
      (∃ request status, s.1.audioThd = .reply request status) →
        s.1.shellThd = .idle ∨ ∃ number, s.1.shellThd = .waiting number)

/-! ## Counting -/

/-- How often a request was taken. -/
def takes (h : List AudioEvent) (number : ℕ) : ℕ := h.count (.taken number)

theorem takes_concat_of_ne {h : List AudioEvent} {x : AudioEvent}
    (hx : ∀ number, x ≠ .taken number) (number : ℕ) : takes (h ++ [x]) number = takes h number := by
  unfold takes
  rw [List.count_append, List.count_singleton, if_neg (by simpa using hx number), Nat.add_zero]

theorem takes_concat_taken (h : List AudioEvent) (number number' : ℕ) :
    takes (h ++ [.taken number]) number'
      = takes h number' + if number = number' then 1 else 0 := by
  unfold takes
  rw [List.count_append, List.count_singleton]
  by_cases heq : number = number' <;> simp [heq]

theorem taken_not_mem_iff {h : List AudioEvent} {number : ℕ} :
    .taken number ∉ h ↔ takes h number = 0 := by
  unfold takes
  rw [List.count_eq_zero]

/-- **What holds in every run**: the numbers are those of requests that were published, no
request is taken twice, and the request that wakes the audio thread was not taken yet. -/
structure Counted (s : AudioSystem × List AudioEvent) : Prop where
  published : ∀ number, .published number ∈ s.2 ↔ number < s.1.requests
  taken : ∀ number, takes s.2 number ≠ 0 → number < s.1.requests
  woken : s.1.audioThd = .woken → ∃ request, s.1.request.message = some request
    ∧ request.number < s.1.requests ∧ takes s.2 request.number = 0

theorem counted_init : Counted (AudioSystem.init, []) where
  published number := by simp [AudioSystem.init]
  taken number h := absurd rfl h
  woken h := by cases h

/-- A step that neither publishes nor takes a request keeps the counts. -/
theorem counted_silent {s s' : AudioSystem} {h : List AudioEvent} {xs : List AudioEvent}
    (hs : Counted (s, h)) (hmessage : s'.request.message = s.request.message)
    (hrequests : s'.requests = s.requests)
    (hwoken : s'.audioThd = .woken → s.audioThd = .woken)
    (hxs : xs = [] ∨ ∃ number result, xs = [.returned number result]) :
    Counted (s', h ++ xs) := by
  have hpublished : ∀ number, .published number ∈ h ++ xs ↔ .published number ∈ h := by
    obtain rfl | ⟨number, result, rfl⟩ := hxs <;> simp
  have htakes : ∀ number, takes (h ++ xs) number = takes h number := by
    obtain rfl | ⟨number, result, rfl⟩ := hxs
    · simp
    · exact takes_concat_of_ne (by simp)
  constructor
  · intro number
    rw [hpublished, show (s', h ++ xs).1.requests = s.requests from hrequests]
    exact hs.published number
  · intro number htaken
    rw [htakes] at htaken
    rw [show (s', h ++ xs).1.requests = s.requests from hrequests]
    exact hs.taken number htaken
  · intro hw
    obtain ⟨request, hrequest, hlt, hzero⟩ := hs.woken (hwoken hw)
    refine ⟨request, hmessage.trans hrequest, hrequests.symm ▸ hlt, ?_⟩
    rw [htakes]
    exact hzero

/-- **A request that is published** gets the next number. -/
theorem counted_publish {s : AudioSystem} {h : List AudioEvent} (hs : Counted (s, h)) (path : Path)
    (shell : ShellThd) :
    Counted ({ s.publishRequest path with shellThd := shell }, h ++ [.published s.requests]) := by
  have htakes : ∀ number, takes (h ++ [.published s.requests]) number = takes h number :=
    takes_concat_of_ne (by simp)
  have hnew : takes h s.requests = 0 := by
    by_contra hne
    exact absurd (hs.taken s.requests hne) (Nat.lt_irrefl _)
  constructor
  · intro number
    show _ ↔ number < s.requests + 1
    rw [List.mem_append, List.mem_singleton, hs.published number, Nat.lt_succ_iff_lt_or_eq]
    simp
  · intro number htaken
    rw [htakes] at htaken
    exact Nat.lt_succ_of_lt (hs.taken number htaken)
  · intro _
    refine ⟨⟨s.requests, path⟩, rfl, Nat.lt_succ_self _, ?_⟩
    rw [htakes]
    exact hnew

/-- **A request that is taken** was not taken before. -/
theorem counted_take {s : AudioSystem} {h : List AudioEvent} (hs : Counted (s, h))
    {request : Numbered Path} (hwoken : s.audioThd = .woken)
    (hrequest : s.request.message = some request) :
    Counted ({ s with audioThd := .taken request }, h ++ [.taken request.number]) := by
  obtain ⟨request', hrequest', hlt, -⟩ := hs.woken hwoken
  rw [Option.some.inj (hrequest'.symm.trans hrequest)] at hlt
  constructor
  · intro number
    rw [List.mem_append, List.mem_singleton]
    simpa using hs.published number
  · intro number htaken
    rw [takes_concat_taken] at htaken
    by_cases heq : request.number = number
    · rw [← heq]
      exact hlt
    · rw [if_neg heq, Nat.add_zero] at htaken
      exact hs.taken number htaken
  · intro h
    cases h

/-! ## The cases of a step -/

/-- The request that the audio thread is about. -/
def AudioSystem.serving (s : AudioSystem) : Option ℕ :=
  match s.audioThd with
  | .woken => s.request.message.map Numbered.number
  | .taken request => some request.number
  | .reply request _ => some request.number
  | _ => none

/-- **What a step does**: it publishes a request, takes one, replies, returns from
`cmd_play`, or none of these. -/
inductive Stepped (s : AudioSystem) (i : AudioStep) : AudioSystem → List AudioEvent → Prop
  | publish (path : Path) (shell : ShellThd) (hrequesting : s.requesting i = true)
      (hshell : shell = s.shellThd ∨ s.shellThd = .idle ∧ shell = .published s.requests) :
      Stepped s i { s.publishRequest path with shellThd := shell } [.published s.requests]
  | take (request : Numbered Path) (hwoken : s.audioThd = .woken)
      (hrequest : s.request.message = some request) :
      Stepped s i { s with audioThd := .taken request } [.taken request.number]
  | reply (request : Numbered Path) (status : AudioPlayStatus)
      (hreply : s.audioThd = .reply request status)
      (hi : ∃ opened decoded, i = .audioThd opened decoded) :
      Stepped s i { s.publishResult ⟨request.number, status⟩ with audioThd := .loop } []
  | returned (number : ℕ) (hshell : s.shellThd = .woken number) :
      Stepped s i { s with shellThd := .idle } [.returned number s.result.message]
  | silent (s' : AudioSystem) (hmessage : s'.request.message = s.request.message)
      (hresult : s'.result.message = s.result.message) (hrequests : s'.requests = s.requests)
      (hwoken : s'.audioThd = .woken ↔ s.audioThd = .woken) (hserving : s'.serving = s.serving)
      (hshell : s'.shellThd = s.shellThd
        ∨ ∃ number, s.shellThd = .published number ∧ s'.shellThd = .waiting number) :
      Stepped s i s' []

theorem Stepped.same (s : AudioSystem) (i : AudioStep) : Stepped s i s [] :=
  .silent s rfl rfl rfl Iff.rfl rfl (Or.inl rfl)

theorem requesting_shell_of_ne {s : AudioSystem} (h : s.shellThd ≠ .idle) (argv : List Path) :
    ¬ s.requesting (.shell argv) = true := by
  simp [AudioSystem.requesting, h]

/-- **The step function takes only such steps.** -/
theorem stepped {s s' : AudioSystem} {i : AudioStep} (h : s.step i = .ok s') :
    Stepped s i s' (s.shows i) := by
  cases i with
  | audioThd opened decoded =>
    have hs' : s' = s.audioStep opened decoded := (Except.ok.inj h).symm
    subst hs'
    unfold AudioSystem.audioStep AudioSystem.shows AudioSystem.requesting
    cases haudio : s.audioThd with
    | start =>
      exact .silent _ rfl rfl rfl (by simp [haudio]) (by simp [AudioSystem.serving, haudio])
        (Or.inl rfl)
    | advertised =>
      exact .silent _ rfl rfl rfl (by simp [haudio]) (by simp [AudioSystem.serving, haudio])
        (Or.inl rfl)
    | loop =>
      exact .silent _ rfl rfl rfl (by simp [haudio]) (by simp [AudioSystem.serving, haudio])
        (Or.inl rfl)
    | waiting => exact Stepped.same s _
    | woken =>
      cases hrequest : s.request.message with
      | none => exact Stepped.same s _
      | some request => exact .take request haudio hrequest
    | taken request =>
      exact .silent _ rfl rfl rfl (by simp [haudio]) (by simp [AudioSystem.serving, haudio])
        (Or.inl rfl)
    | reply request status => exact .reply request status haudio ⟨opened, decoded, rfl⟩
  | shell argv =>
    have hs' : s' = s.shellStep argv := (Except.ok.inj h).symm
    subst hs'
    unfold AudioSystem.shellStep AudioSystem.shows
    cases hshell : s.shellThd with
    | idle =>
      by_cases hrequesting : s.requesting (.shell argv) = true
      · rw [if_pos hrequesting]
        have hall := hrequesting
        unfold AudioSystem.requesting at hall
        rw [Bool.and_eq_true, Bool.and_eq_true] at hall
        obtain ⟨⟨-, hfound⟩, hlength⟩ := hall
        obtain ⟨arg, rfl⟩ := List.length_eq_one_iff.mp (of_decide_eq_true hlength)
        rw [if_pos hfound]
        exact .publish _ _ hrequesting (Or.inr ⟨hshell, rfl⟩)
      · rw [if_neg hrequesting]
        dsimp only
        split
        · rename_i hfound
          split
          · exact absurd (by simp [AudioSystem.requesting, hshell, hfound]) hrequesting
          · exact Stepped.same s _
        · exact Stepped.same s _
    | published number =>
      rw [if_neg (requesting_shell_of_ne (by simp [hshell]) argv)]
      exact .silent _ rfl rfl rfl Iff.rfl rfl (Or.inr ⟨number, hshell, rfl⟩)
    | waiting number =>
      rw [if_neg (requesting_shell_of_ne (by simp [hshell]) argv)]
      exact Stepped.same s _
    | woken number =>
      rw [if_neg (requesting_shell_of_ne (by simp [hshell]) argv)]
      exact .returned number hshell
  | soundPlay soundId =>
    have hs' : s' = s.soundStep soundId := (Except.ok.inj h).symm
    subst hs'
    unfold AudioSystem.soundStep AudioSystem.shows
    by_cases hfound : s.found = true
    · rw [if_pos hfound, if_pos (show s.requesting (.soundPlay soundId) = true from hfound)]
      exact .publish _ s.shellThd hfound (Or.inl rfl)
    · rw [if_neg hfound, if_neg (show ¬ s.requesting (.soundPlay soundId) = true from hfound)]
      exact Stepped.same s _

/-- **Every step keeps the counts.** -/
theorem counted_stepped {s s' : AudioSystem} {h xs : List AudioEvent} {i : AudioStep}
    (hs : Counted (s, h)) (hstep : Stepped s i s' xs) : Counted (s', h ++ xs) := by
  cases hstep with
  | publish path shell => exact counted_publish hs path shell
  | take request hwoken hrequest => exact counted_take hs hwoken hrequest
  | reply request status =>
    exact counted_silent hs rfl rfl (fun h => by cases h) (Or.inl rfl)
  | returned number => exact counted_silent hs rfl rfl id (Or.inr ⟨_, _, rfl⟩)
  | silent _ hmessage _ hrequests hwoken =>
    exact counted_silent hs hmessage hrequests hwoken.mp (Or.inl rfl)

/-! ## Requests that are published while the audio thread waits -/

/-- **The invariant of the steps that keep requests and results apart.** -/
structure Apart (s : AudioSystem × List AudioEvent) : Prop extends Counted s where
  /-- A request was taken, or woke the audio thread. -/
  served : ∀ number < s.1.requests, takes s.2 number = 1
    ∨ takes s.2 number = 0 ∧ s.1.audioThd = .woken ∧ s.1.serving = some number
  /-- The audio thread is about the request of the shell. -/
  outstanding : ∀ number, s.1.shellThd.outstanding = some number → s.1.serving = some number
  /-- The result that the shell is about to read is that of its request. -/
  result : ∀ number, s.1.shellThd = .woken number →
    ∃ result, s.1.result.message = some result ∧ result.number = number
  own : OwnResult s

theorem apart_init : Apart (AudioSystem.init, []) where
  toCounted := counted_init
  served number h := absurd h (Nat.not_lt_zero _)
  outstanding number h := by cases h
  result number h := by cases h
  own number result h := absurd h List.not_mem_nil

theorem serving_of_waiting {s : AudioSystem} (h : s.audioThd = .waiting) : s.serving = none := by
  unfold AudioSystem.serving
  rw [h]

theorem ownResult_append {s s' : AudioSystem} {h xs : List AudioEvent} (hs : OwnResult (s, h))
    (hxs : ∀ number result, .returned number result ∈ xs →
      ∃ r, result = some r ∧ r.number = number) : OwnResult (s', h ++ xs) := by
  intro number result hmem
  obtain hmem | hmem := List.mem_append.mp hmem
  · exact hs number result hmem
  · exact hxs number result hmem

/-- Publishing a request while the audio thread waits. -/
theorem apart_publish {s : AudioSystem} {h : List AudioEvent} (hs : Apart (s, h))
    (hwaiting : s.audioThd = .waiting) (path : Path) {shell : ShellThd}
    (hshell : shell = s.shellThd ∨ s.shellThd = .idle ∧ shell = .published s.requests) :
    Apart ({ s.publishRequest path with shellThd := shell }, h ++ [.published s.requests]) where
  toCounted := counted_publish hs.toCounted path shell
  served number hlt := by
    rw [takes_concat_of_ne (by simp)]
    obtain hold | rfl := Nat.lt_succ_iff_lt_or_eq.mp hlt
    · obtain hone | ⟨-, hwoken, -⟩ := hs.served number hold
      · exact Or.inl hone
      · rw [show (s, h).1.audioThd = .waiting from hwaiting] at hwoken
        cases hwoken
    · refine Or.inr ⟨?_, if_pos hwaiting, ?_⟩
      · by_contra hne
        exact absurd (hs.taken s.requests hne) (Nat.lt_irrefl _)
      · show (match if s.audioThd = .waiting then AudioThd.woken else s.audioThd with
          | .woken => some s.requests
          | .taken request => some request.number
          | .reply request _ => some request.number
          | _ => none) = some s.requests
        rw [if_pos hwaiting]
  outstanding number hnumber := by
    have hserving : ({ s.publishRequest path with shellThd := shell } : AudioSystem).serving
        = some s.requests := by
      unfold AudioSystem.serving AudioSystem.publishRequest
      rw [hwaiting]
      rfl
    have hnone := serving_of_waiting hwaiting
    obtain rfl | ⟨-, rfl⟩ := hshell
    · have hold := hs.outstanding number hnumber
      rw [show (s, h).1.serving = none from hnone] at hold
      cases hold
    · cases hnumber
      exact hserving
  result number hnumber := by
    obtain rfl | ⟨-, rfl⟩ := hshell
    · exact hs.result number hnumber
    · cases hnumber
  own := ownResult_append hs.own (by simp)

/-- The audio thread takes a request. -/
theorem apart_take {s : AudioSystem} {h : List AudioEvent} (hs : Apart (s, h))
    {request : Numbered Path} (hwoken : s.audioThd = .woken)
    (hrequest : s.request.message = some request) :
    Apart ({ s with audioThd := .taken request }, h ++ [.taken request.number]) := by
  have hserving : s.serving = some request.number := by
    unfold AudioSystem.serving
    rw [hwoken, hrequest]
    rfl
  refine ⟨counted_take hs.toCounted hwoken hrequest, fun number hlt => Or.inl ?_,
    fun number hnumber => hserving.symm.trans (hs.outstanding number hnumber), hs.result,
    ownResult_append hs.own (by simp)⟩
  rw [takes_concat_taken]
  obtain hone | ⟨hzero, -, hnumber⟩ := hs.served number hlt
  · obtain ⟨request', hrequest', -, hfresh⟩ := hs.woken hwoken
    rw [Option.some.inj (hrequest'.symm.trans hrequest)] at hfresh
    have hne : request.number ≠ number := by
      rintro rfl
      rw [show takes (s, h).2 _ = 1 from hone] at hfresh
      cases hfresh
    rw [if_neg hne, Nat.add_zero]
    exact hone
  · have heq : request.number = number := Option.some.inj (hserving.symm.trans hnumber)
    rw [if_pos heq]
    exact congrArg Nat.succ hzero

/-- **Every step that keeps requests and results apart keeps the invariant.** -/
theorem apart_stepped {s s' : AudioSystem} {h xs : List AudioEvent} {i : AudioStep}
    (hs : Apart (s, h)) (hkeeps : KeepsApart (s, h) i) (hstep : Stepped s i s' xs) :
    Apart (s', h ++ xs) := by
  have hcounted := counted_stepped hs.toCounted hstep
  cases hstep with
  | publish path shell hrequesting hshell =>
    exact apart_publish hs (hkeeps.1 hrequesting) path hshell
  | take request hwoken hrequest => exact apart_take hs hwoken hrequest
  | reply request status hreply hi =>
    have hserving : s.serving = some request.number := by
      unfold AudioSystem.serving
      rw [hreply]
    rw [List.append_nil] at hcounted ⊢
    refine ⟨hcounted, fun number hlt => ?_, fun number hnumber => ?_, fun number hnumber => ?_,
      hs.own⟩
    · obtain hone | ⟨-, hwoken, -⟩ := hs.served number hlt
      · exact Or.inl hone
      · rw [show (s, h).1.audioThd = .reply request status from hreply] at hwoken
        cases hwoken
    · obtain hidle | ⟨n, hwaiting⟩ := hkeeps.2 hi ⟨request, status, hreply⟩
      · rw [show ({ s.publishResult ⟨request.number, status⟩ with audioThd := .loop }
          : AudioSystem).shellThd = s.shellThd.wake from rfl,
          show s.shellThd = .idle from hidle] at hnumber
        cases hnumber
      · rw [show ({ s.publishResult ⟨request.number, status⟩ with audioThd := .loop }
          : AudioSystem).shellThd = s.shellThd.wake from rfl,
          show s.shellThd = .waiting n from hwaiting] at hnumber
        cases hnumber
    · refine ⟨_, rfl, ?_⟩
      have hwake : s.shellThd.wake = .woken number := hnumber
      obtain hidle | ⟨n, hwaiting⟩ := hkeeps.2 hi ⟨request, status, hreply⟩
      · rw [show s.shellThd = .idle from hidle] at hwake
        cases hwake
      · have hout := hs.outstanding n (by
          rw [show (s, h).1.shellThd = .waiting n from hwaiting]
          rfl)
        rw [show s.shellThd = .waiting n from hwaiting] at hwake
        cases hwake
        exact Option.some.inj (hserving.symm.trans hout)
  | returned number hshell =>
    refine ⟨hcounted, fun n hlt => ?_, (fun n hn => by cases hn), (fun n hn => by cases hn),
      ownResult_append hs.own (fun n result hmem => ?_)⟩
    · rw [takes_concat_of_ne (by simp)]
      exact hs.served n hlt
    · obtain ⟨rfl, rfl⟩ := AudioEvent.returned.inj (List.mem_singleton.mp hmem)
      exact hs.result n hshell
  | silent _ hmessage hresult hrequests hwoken hserving hshell =>
    rw [List.append_nil] at hcounted ⊢
    refine ⟨hcounted, fun number hlt => ?_, fun number hnumber => ?_, fun number hnumber => ?_,
      hs.own⟩
    · rw [show (s', h).1.requests = s.requests from hrequests] at hlt
      rw [show (s', h).1.serving = s.serving from hserving]
      exact (hs.served number hlt).imp_right (fun hw => ⟨hw.1, hwoken.mpr hw.2.1, hw.2.2⟩)
    · rw [show (s', h).1.serving = s.serving from hserving]
      refine hs.outstanding number ?_
      obtain hsame | ⟨n, hpublished, hwaiting⟩ := hshell
      · rw [← show (s', h).1.shellThd = s.shellThd from hsame]
        exact hnumber
      · rw [show (s', h).1.shellThd = .waiting n from hwaiting] at hnumber
        rw [show (s, h).1.shellThd = .published n from hpublished]
        exact hnumber
    · obtain hsame | ⟨n, -, hwaiting⟩ := hshell
      · rw [show (s', h).1.shellThd = s.shellThd from hsame] at hnumber
        obtain ⟨result, hold, heq⟩ := hs.result number hnumber
        exact ⟨result, hresult.trans hold, heq⟩
      · rw [show (s', h).1.shellThd = .waiting n from hwaiting] at hnumber
        cases hnumber

/-- A request that woke the audio thread can be taken. -/
theorem canBeTaken_of_woken {s : AudioSystem} {h : List AudioEvent} {request : Numbered Path}
    (hwoken : s.audioThd = .woken) (hrequest : s.request.message = some request) :
    CanBeTaken (s, h) request.number := by
  refine ⟨[.audioThd true true], (s.audioStep true true, h ++ s.shows (.audioThd true true)), rfl,
    List.mem_append_right h ?_⟩
  show AudioEvent.taken request.number ∈ if s.requesting (.audioThd true true) then _ else _
  rw [if_neg (by simp [AudioSystem.requesting]), hwoken, hrequest]
  exact List.mem_singleton.mpr rfl

theorem noneLost_of_apart {s : AudioSystem × List AudioEvent} (hs : Apart s) : NoneLost s := by
  intro number hpublished
  obtain hone | ⟨hzero, hwoken, hserving⟩ := hs.served number ((hs.published number).mp hpublished)
  · exact Or.inl hone
  · obtain ⟨request, hrequest, -, -⟩ := hs.woken hwoken
    have heq : s.1.serving = some request.number := by
      unfold AudioSystem.serving
      rw [hwoken, hrequest]
      rfl
    rw [← Option.some.inj (heq.symm.trans hserving)] at hzero ⊢
    exact Or.inr ⟨taken_not_mem_iff.mpr hzero, canBeTaken_of_woken hwoken hrequest⟩

/-! ## Requests that are lost -/

/-- **A request that is lost**: it was not taken, and does not wake the audio thread. -/
structure Lost (number : ℕ) (s : AudioSystem × List AudioEvent) : Prop where
  old : number < s.1.requests
  fresh : takes s.2 number = 0
  asleep : s.1.audioThd = .woken → ∀ request, s.1.request.message = some request →
    request.number ≠ number

/-- **A request that is lost stays lost.** -/
theorem lost_stepped {number : ℕ} {s s' : AudioSystem} {h xs : List AudioEvent} {i : AudioStep}
    (hs : Lost number (s, h)) (hstep : Stepped s i s' xs) : Lost number (s', h ++ xs) := by
  cases hstep with
  | publish path shell =>
    refine ⟨Nat.lt_succ_of_lt hs.old, ?_, fun _ request hrequest => ?_⟩
    · rw [takes_concat_of_ne (by simp)]
      exact hs.fresh
    · cases hrequest
      exact (Nat.ne_of_lt hs.old).symm
  | take request hwoken hrequest =>
    refine ⟨hs.old, ?_, (fun h => by cases h)⟩
    rw [takes_concat_taken, if_neg (hs.asleep hwoken request hrequest)]
    exact hs.fresh
  | reply request status =>
    rw [List.append_nil]
    exact ⟨hs.old, hs.fresh, (fun h => by cases h)⟩
  | returned n =>
    refine ⟨hs.old, ?_, hs.asleep⟩
    rw [takes_concat_of_ne (by simp)]
    exact hs.fresh
  | silent _ hmessage _ hrequests hwoken =>
    rw [List.append_nil]
    refine ⟨hrequests.symm ▸ hs.old, hs.fresh, fun hw request hrequest => ?_⟩
    exact hs.asleep (hwoken.mp hw) request (hmessage.symm.trans hrequest)

theorem not_canBeTaken_of_lost {number : ℕ} {s : AudioSystem × List AudioEvent}
    (hs : Lost number s) : ¬ CanBeTaken s number := by
  rintro ⟨steps, s', hrun, hmem⟩
  have hlost : Lost number s' := by
    refine run_invariant (P := Lost number) (fun s i s' hs hstep => ?_) hrun hs
    obtain ⟨hone, hshows⟩ := recorded_eq_ok.mp hstep
    obtain ⟨t, h⟩ := s'
    rw [show h = s.2 ++ s.1.shows i from hshows]
    exact lost_stepped hs (stepped hone)
  exact taken_not_mem_iff.mpr hlost.fresh hmem

/-- **A request that is published while the audio thread does not wait** is lost, or
another one is. -/
theorem not_noneLost_of_requesting {s s' : AudioSystem × List AudioEvent} {i : AudioStep}
    (hs : Counted s) (hrequesting : s.1.requesting i = true) (hwaiting : s.1.audioThd ≠ .waiting)
    (hstep : recorded AudioSystem.step AudioSystem.shows s i = .ok s') : ¬ NoneLost s' := by
  obtain ⟨s, h⟩ := s
  obtain ⟨s', h'⟩ := s'
  obtain ⟨hone, hshows⟩ := recorded_eq_ok.mp hstep
  have hxs : s.shows i = [.published s.requests] := if_pos hrequesting
  have hcounted : Counted (s', h') := by
    rw [show h' = h ++ s.shows i from hshows]
    exact counted_stepped hs (stepped hone)
  have hlost : ∃ number, Lost number (s', h') := by
    have hstepped := stepped hone
    rw [show h' = h ++ s.shows i from hshows]
    rw [hxs] at hstepped ⊢
    cases hstepped with
    | publish path shell =>
      have htakes : ∀ number, takes (h ++ [.published s.requests]) number = takes h number :=
        takes_concat_of_ne (by simp)
      have hthread : (s.publishRequest path).audioThd = s.audioThd := if_neg hwaiting
      by_cases hwoken : s.audioThd = .woken
      · obtain ⟨request, -, hlt, hzero⟩ := hs.woken hwoken
        refine ⟨request.number, Nat.lt_succ_of_lt hlt, (htakes _).trans hzero,
          fun _ request' hrequest' => ?_⟩
        cases hrequest'
        exact (Nat.ne_of_lt hlt).symm
      · refine ⟨s.requests, Nat.lt_succ_self _, ?_, fun hw => absurd (hthread.symm.trans hw) hwoken⟩
        refine (htakes _).trans ?_
        by_contra hne
        exact absurd (hs.taken s.requests hne) (Nat.lt_irrefl _)
  intro hnone
  obtain ⟨number, hnumber⟩ := hlost
  obtain hone | ⟨-, hcan⟩ := hnone number ((hcounted.published number).mpr hnumber.old)
  · have hzero := hnumber.fresh
    rw [show takes (s', h').2 number = 1 from hone] at hzero
    cases hzero
  · exact not_canBeTaken_of_lost hnumber hcan

/-- **When every request is answered**: in every run in which requests are published while
the audio thread waits, and results while the shell waits or needs none, no request is
lost and `cmd_play` returns the result of its request. A request that is published while
the audio thread does not wait is lost, or another one is. -/
theorem requests_answered (steps : List AudioStep) (s : AudioSystem × List AudioEvent) :
    (Runs (recorded AudioSystem.step AudioSystem.shows) KeepsApart (AudioSystem.init, []) steps s →
      NoneLost s ∧ OwnResult s)
    ∧ ∀ (i : AudioStep) (s' : AudioSystem × List AudioEvent),
      run (recorded AudioSystem.step AudioSystem.shows) (AudioSystem.init, []) steps = .ok s →
      recorded AudioSystem.step AudioSystem.shows s i = .ok s' →
      s.1.requesting i = true → s.1.audioThd ≠ .waiting → ¬ NoneLost s' := by
  constructor
  · intro h
    have hs : Apart s := by
      refine h.invariant (fun s i s' hs hkeeps hstep => ?_) apart_init
      obtain ⟨hone, hshows⟩ := recorded_eq_ok.mp hstep
      obtain ⟨t, past⟩ := s'
      rw [show past = s.2 ++ s.1.shows i from hshows]
      exact apart_stepped hs hkeeps (stepped hone)
    exact ⟨noneLost_of_apart hs, hs.own⟩
  · intro i s' hrun hstep hrequesting hwaiting
    have hs : Counted s := by
      refine run_invariant (fun s i s' hs hstep => ?_) hrun counted_init
      obtain ⟨hone, hshows⟩ := recorded_eq_ok.mp hstep
      obtain ⟨t, past⟩ := s'
      rw [show past = s.2 ++ s.1.shows i from hshows]
      exact counted_stepped hs (stepped hone)
    exact not_noneLost_of_requesting hs hrequesting hwaiting hstep

theorem keepsApart_of_quiet {s : AudioSystem × List AudioEvent} {i : AudioStep}
    (hrequesting : s.1.requesting i = false)
    (hreply : ∀ request status, s.1.audioThd ≠ .reply request status) : KeepsApart s i := by
  constructor
  · intro h
    rw [hrequesting] at h
    cases h
  · rintro - ⟨request, status, h⟩
    exact absurd h (hreply request status)

/-- The audio thread up to its first wait. -/
def startAudio : List AudioStep := [.audioThd true true, .audioThd true true, .audioThd true true]

/-- A sound is taken, played, and its result published. -/
def playSound : List AudioStep := [.audioThd true true, .audioThd true true, .audioThd true true]

/-- The shell waits before the sound is played. -/
theorem requests_answered_shell :
    NoneLost (⟨⟨true, some ⟨0, cmdPlayPath []⟩⟩, ⟨true, some ⟨0, .ok⟩⟩, .loop, .idle, 1⟩,
        [.published 0, .taken 0, .returned 0 (some ⟨0, .ok⟩)])
      ∧ OwnResult (⟨⟨true, some ⟨0, cmdPlayPath []⟩⟩, ⟨true, some ⟨0, .ok⟩⟩, .loop, .idle, 1⟩,
        [.published 0, .taken 0, .returned 0 (some ⟨0, .ok⟩)]) := by
  refine (requests_answered
    (startAudio ++ [.shell [[]], .shell []] ++ playSound ++ [.shell []]) _).1 ?_
  refine .cons (keepsApart_of_quiet rfl (by rintro _ _ ⟨⟩)) rfl ?_
  refine .cons (keepsApart_of_quiet rfl (by rintro _ _ ⟨⟩)) rfl ?_
  refine .cons (keepsApart_of_quiet rfl (by rintro _ _ ⟨⟩)) rfl ?_
  refine .cons ⟨fun _ => rfl, by rintro - ⟨_, _, ⟨⟩⟩⟩ rfl ?_
  refine .cons (keepsApart_of_quiet rfl (by rintro _ _ ⟨⟩)) rfl ?_
  refine .cons (keepsApart_of_quiet rfl (by rintro _ _ ⟨⟩)) rfl ?_
  refine .cons (keepsApart_of_quiet rfl (by rintro _ _ ⟨⟩)) rfl ?_
  refine .cons ⟨by rintro ⟨⟩, fun _ _ => Or.inr ⟨0, rfl⟩⟩ rfl ?_
  exact .cons (keepsApart_of_quiet rfl (by rintro _ _ ⟨⟩)) rfl .nil

/-- The result is published before the shell waits, and the shell returns with the result
of a sound of the virtual machine. -/
theorem not_requests_answered :
    ¬ ∀ (steps : List AudioStep) (s : AudioSystem × List AudioEvent),
      run (recorded AudioSystem.step AudioSystem.shows) (AudioSystem.init, []) steps = .ok s →
      NoneLost s ∧ OwnResult s := by
  intro h
  have hown := (h (startAudio ++ [.shell [[]]] ++ playSound
      ++ [.shell [], .audioThd true true, .soundPlay 1] ++ playSound ++ [.shell []])
    (⟨⟨true, some ⟨1, soundPlayPath 1⟩⟩, ⟨true, some ⟨1, .ok⟩⟩, .loop, .idle, 2⟩,
      [.published 0, .taken 0, .published 1, .taken 1, .returned 0 (some ⟨1, .ok⟩)]) rfl).2
  obtain ⟨r, hr, hnumber⟩ := hown 0 (some ⟨1, .ok⟩) (by simp)
  rw [← Option.some.inj hr] at hnumber
  cases hnumber

end Audio
