import Meshezia.Lib.FixedWindow
import Meshezia.Lib.JsString
import Meshezia.Lib.OMap
import Meshezia.Lib.Run

/-!
# The rate limiter (`checkRateLimit` of `index.ts`)

Every HTTP request is counted under its address before anything else is done with it, in
windows of `RATE_WINDOW_MS`; a timer deletes the windows that have ended.  An address has
the window that its own requests alone would have given it, or none once that has ended
(`stands_run`), so the limiter is a fixed window for each address:

    Ordered es → at most 2 * M requests of an address pass in [a, a + W], one is refused
      only when M have passed in its window, and the answers are those of the run with
      the requests of the address alone                                     (rate_limit)

Times are whole milliseconds, as `Date.now()` is; a fraction of `RATE_WINDOW_MS` or of
`RATE_MAX_REQUESTS` would not change a comparison.
-/

namespace Meshezia

/-- `{ count, resetAt }`. -/
abbrev RateEntry := Window

abbrev RateMap := OMap JsString RateEntry

/-- The 429 response, with its `Retry-After` header. -/
structure RateResponse where
  status : Nat
  text : String
  retryAfter : String
deriving DecidableEq, Repr

def tooManyRequests : RateResponse := ⟨429, "Too Many Requests", "60"⟩

inductive RateEvent where
  | request (ip : JsString) (now : Int)
  | cleanup (now : Int)
deriving DecidableEq, Repr

def RateEvent.time : RateEvent → Int
  | .request _ now => now
  | .cleanup now => now

/-- The time of a request of `ip`. -/
def RateEvent.timeOf (ip : JsString) : RateEvent → Option Int
  | .request q now => if q = ip then some now else none
  | .cleanup _ => none

section
variable (RATE_WINDOW_MS : Int) (RATE_MAX_REQUESTS : Nat)

/-- The response is `null` for a request that passes. -/
def checkRateLimit (rateMap : RateMap) (ip : JsString) (now : Int) :
    RateMap × Option RateResponse :=
  let entry : RateEntry :=
    match rateMap.get? ip with
    | none => { count := 0, resetAt := now + RATE_WINDOW_MS }
    | some entry =>
      if now > entry.resetAt then { count := 0, resetAt := now + RATE_WINDOW_MS } else entry
  let entry := { entry with count := entry.count + 1 }
  (rateMap.set ip entry,
    if entry.count > RATE_MAX_REQUESTS then some tooManyRequests else none)

/-- The callback of `rateLimitCleanupTimer`. -/
def rateCleanup (rateMap : RateMap) (now : Int) : RateMap :=
  rateMap.filter fun _ entry => !decide (now > entry.resetAt)

def rateStep (rateMap : RateMap) : RateEvent → RateMap
  | .request ip now => (checkRateLimit RATE_WINDOW_MS RATE_MAX_REQUESTS rateMap ip now).1
  | .cleanup now => rateCleanup rateMap now

/-- The time of a request of `ip` that passes. -/
def passTime (ip : JsString) (rateMap : RateMap) : RateEvent → Option Int
  | .request q now =>
    if q = ip ∧ (checkRateLimit RATE_WINDOW_MS RATE_MAX_REQUESTS rateMap q now).2 = none then
      some now
    else none
  | .cleanup _ => none

/-- Those of a run. -/
def passTimes (ip : JsString) : RateMap → List RateEvent → List Int
  | _, [] => []
  | rateMap, e :: es =>
    (passTime RATE_WINDOW_MS RATE_MAX_REQUESTS ip rateMap e).toList ++
      passTimes ip (rateStep RATE_WINDOW_MS RATE_MAX_REQUESTS rateMap e) es

end

/-- The times of the events do not decrease. -/
def Ordered (es : List RateEvent) : Prop := Window.Times (es.map RateEvent.time)

instance : DecidablePred Ordered := fun es =>
  inferInstanceAs (Decidable (Window.Times (es.map RateEvent.time)))

section
variable {W : Int} {M : Nat} {m : RateMap} {ip q : JsString} {now : Int}

/-! ## One event -/

theorem get?_checkRateLimit :
    (checkRateLimit W M m q now).1.get? ip =
      if q = ip then some (Window.hit W (m.get? q) now) else m.get? ip := by
  rw [checkRateLimit, OMap.get?_set]
  by_cases hq : q = ip
  · rw [if_pos hq, if_pos hq]
    cases m.get? q with
    | none => rfl
    | some entry =>
      dsimp only [Window.hit]
      split <;> rfl
  · rw [if_neg hq, if_neg hq]

theorem checkRateLimit_snd : (checkRateLimit W M m ip now).2 =
    if (Window.hit W (m.get? ip) now).count > M then some tooManyRequests else none := by
  rw [checkRateLimit]
  cases m.get? ip with
  | none => rfl
  | some entry =>
    dsimp only [Window.hit]
    split <;> rfl

theorem get?_rateCleanup : (rateCleanup m now).get? ip =
    (m.get? ip).filter fun entry => !decide (now > entry.resetAt) := by
  rw [rateCleanup, OMap.get?_filter]

/-! ## One address -/

/-- At `now` an address with the window `alone` has it, or has none and it has ended. -/
def Stands (now : Int) (entry alone : Option RateEntry) : Prop :=
  entry = alone ∨ entry = none ∧ ∀ w, alone = some w → w.resetAt < now

theorem Stands.mono {entry alone : Option RateEntry} {now' : Int} (h : Stands now entry alone)
    (hle : now ≤ now') : Stands now' entry alone := by
  rcases h with h | ⟨h, hended⟩
  · exact Or.inl h
  · exact Or.inr ⟨h, fun w hw => Int.lt_of_lt_of_le (hended w hw) hle⟩

/-- A request counts in the same window either way. -/
theorem Stands.hit_eq {entry alone : Option RateEntry} (h : Stands now entry alone) :
    Window.hit W entry now = Window.hit W alone now := by
  rcases h with rfl | ⟨rfl, hended⟩
  · rfl
  · cases alone with
    | none => rfl
    | some w => simp [Window.hit, hended w rfl]

theorem Stands.step {alone : Option RateEntry} {e : RateEvent}
    (h : Stands e.time (m.get? ip) alone) :
    Stands e.time ((rateStep W M m e).get? ip) (Window.hits W alone (e.timeOf ip).toList) := by
  cases e with
  | request q now =>
    have hget := @get?_checkRateLimit W M m ip q now
    by_cases hq : q = ip
    · subst hq
      refine Or.inl (hget.trans ?_)
      rw [if_pos rfl, RateEvent.timeOf, if_pos rfl]
      exact congrArg some h.hit_eq
    · rw [if_neg hq] at hget
      rw [RateEvent.timeOf, if_neg hq, rateStep, hget]
      exact h
  | cleanup now =>
    show Stands now ((rateCleanup m now).get? ip) alone
    rw [get?_rateCleanup]
    rcases h with h | ⟨h, hended⟩
    · cases alone with
      | none => exact Or.inl (by rw [h]; rfl)
      | some w =>
        rw [h]
        by_cases hold : now > w.resetAt
        · refine Or.inr ⟨by simp [Option.filter, hold], fun w' hw' => ?_⟩
          cases hw'
          exact hold
        · exact Or.inl (by simp [Option.filter, hold])
    · exact Or.inr ⟨by rw [h]; rfl, hended⟩

/-! ## Runs -/

theorem Ordered.cons {e : RateEvent} {es : List RateEvent} (h : Ordered (e :: es)) :
    Ordered es ∧ ∀ e' ∈ es, e.time ≤ e'.time := by
  rw [Ordered, List.map_cons, Window.Times, List.pairwise_cons] at h
  exact ⟨h.2, fun e' he' => h.1 _ (List.mem_map_of_mem he')⟩

theorem stands_run {es : List RateEvent} (hes : Ordered es) {alone : Option RateEntry} {t : Int}
    (hfrom : ∀ e ∈ es, t ≤ e.time) (h : Stands t (m.get? ip) alone) {t' : Int} (ht' : t ≤ t')
    (hto : ∀ e ∈ es, e.time ≤ t') :
    Stands t' ((run (rateStep W M) m es).get? ip)
      (Window.hits W alone (es.filterMap (RateEvent.timeOf ip))) := by
  induction es generalizing m alone t with
  | nil => exact h.mono ht'
  | cons e es ih =>
    obtain ⟨hes, hle⟩ := hes.cons
    have hstep : Stands e.time ((rateStep W M m e).get? ip)
        (Window.hits W alone (e.timeOf ip).toList) := (h.mono (hfrom e (by simp))).step
    have hrest := ih hes hle hstep (hto e (by simp)) fun e' he' => hto e' (by simp [he'])
    rw [run_cons, List.filterMap_cons]
    cases htime : e.timeOf ip with
    | none =>
      rw [htime] at hrest
      exact hrest
    | some now =>
      rw [htime] at hrest
      exact hrest

/-- What passes is what the window of the address alone admits. -/
theorem passTimes_eq {es : List RateEvent} (hes : Ordered es) {alone : Option RateEntry} {t : Int}
    (hfrom : ∀ e ∈ es, t ≤ e.time) (h : Stands t (m.get? ip) alone) :
    passTimes W M ip m es = Window.admitted W M alone (es.filterMap (RateEvent.timeOf ip)) := by
  induction es generalizing m alone t with
  | nil => rfl
  | cons e es ih =>
    obtain ⟨hes, hle⟩ := hes.cons
    have hat := h.mono (hfrom e (by simp))
    have hrest := ih hes hle (hat.step (W := W) (M := M))
    rw [passTimes, hrest, List.filterMap_cons]
    cases e with
    | cleanup now => rfl
    | request q now =>
      by_cases hq : q = ip
      · subst hq
        have hhit : Window.hit W (m.get? q) now = Window.hit W alone now := hat.hit_eq
        rw [passTime, checkRateLimit_snd, hhit, RateEvent.timeOf, if_pos rfl]
        show _ = Window.admitted W M alone (now :: _)
        rw [Window.admitted]
        congr 1
        by_cases hM : (Window.hit W alone now).count > M
        · rw [if_pos hM, if_neg (by simp), if_neg (by omega)]
          rfl
        · rw [if_neg hM, if_pos ⟨rfl, rfl⟩, if_pos (by omega)]
          rfl
      · rw [passTime, if_neg fun h => hq h.1, RateEvent.timeOf, if_neg hq]
        rfl

theorem stands_empty (t : Int) : Stands t ((OMap.empty : RateMap).get? ip) none := Or.inl rfl

/-- A time that is not later than any event. -/
theorem exists_start (es : List RateEvent) (hes : Ordered es) : ∃ t, ∀ e ∈ es, t ≤ e.time := by
  cases es with
  | nil => exact ⟨0, by simp⟩
  | cons e es =>
    refine ⟨e.time, fun e' he' => ?_⟩
    rcases List.mem_cons.mp he' with rfl | hmem
    · exact Int.le_refl _
    · exact hes.cons.2 e' hmem

theorem times_requests {es : List RateEvent} (hes : Ordered es) :
    Window.Times (es.filterMap (RateEvent.timeOf ip)) := by
  induction es with
  | nil => exact List.Pairwise.nil
  | cons e es ih =>
    obtain ⟨hes, hle⟩ := hes.cons
    rw [List.filterMap_cons]
    cases htime : e.timeOf ip with
    | none => exact ih hes
    | some now =>
      have hnow : ∀ {e : RateEvent} {now}, e.timeOf ip = some now → e.time = now := by
        intro e now h
        cases e with
        | cleanup t => cases h
        | request q t =>
          rw [RateEvent.timeOf] at h
          split at h
          · exact Option.some.inj h
          · cases h
      refine List.Pairwise.cons (fun t ht => ?_) (ih hes)
      obtain ⟨e', he', ht⟩ := List.mem_filterMap.mp ht
      rw [← hnow htime, ← hnow ht]
      exact hle e' he'

theorem Ordered.sublist {es es' : List RateEvent} (h : Ordered es) (hsub : es'.Sublist es) :
    Ordered es' :=
  List.Pairwise.sublist (List.Sublist.map _ hsub) h

/-- The answer is that of the window of the address alone. -/
theorem checkRateLimit_run {es : List RateEvent} (hes : Ordered es) {t : Int}
    (hfrom : ∀ e ∈ es, t ≤ e.time) (hnow : t ≤ now) (hto : ∀ e ∈ es, e.time ≤ now) :
    (checkRateLimit W M (run (rateStep W M) .empty es) ip now).2 =
      if (Window.hit W (Window.hits W none (es.filterMap (RateEvent.timeOf ip))) now).count > M then
        some tooManyRequests else none := by
  have hstands : Stands now ((run (rateStep W M) .empty es).get? ip) _ :=
    stands_run hes hfrom (stands_empty t) hnow hto
  rw [checkRateLimit_snd, hstands.hit_eq]

end

/-- A request of `ip`. -/
def RateEvent.isRequestOf (ip : JsString) (e : RateEvent) : Bool := (e.timeOf ip).isSome

theorem filterMap_timeOf_filter (ip : JsString) (es : List RateEvent) :
    (es.filter (RateEvent.isRequestOf ip)).filterMap (RateEvent.timeOf ip) =
      es.filterMap (RateEvent.timeOf ip) := by
  rw [List.filterMap_filter]
  congr 1
  funext e
  rw [RateEvent.isRequestOf]
  cases e.timeOf ip <;> rfl

/-- **The rate limiter.**  In any interval as long as a window at most twice the maximum
passes; a request is refused in an open window that has let the maximum pass; and neither the
cleanup nor other addresses change an answer. -/
theorem rate_limit {W : Int} {M : Nat} (hW : 0 < W) (hM : 0 < M) {es : List RateEvent}
    (hes : Ordered es) (ip : JsString) :
    (∀ a, ((passTimes W M ip .empty es).filter fun t => decide (a ≤ t ∧ t ≤ a + W)).length ≤
      2 * M) ∧
    ∀ before now after, es = before ++ .request ip now :: after →
      let answer := fun earlier =>
        (checkRateLimit W M (run (rateStep W M) .empty earlier) ip now).2
      (answer before ≠ none → ∃ start, now - W ≤ start ∧ start ≤ now ∧
        ((run (rateStep W M) .empty before).get? ip).map Window.resetAt = some (start + W) ∧
        ((passTimes W M ip .empty before).filter fun t => decide (start ≤ t)).length = M) ∧
      answer before = answer (before.filter (RateEvent.isRequestOf ip)) := by
  obtain ⟨t, hfrom⟩ := exists_start es hes
  constructor
  · intro a
    rw [passTimes_eq hes hfrom (stands_empty t)]
    exact Window.admitted_le a (times_requests hes)
  · rintro before now after rfl answer
    have hupto : Ordered (before ++ [.request ip now]) :=
      hes.sublist ((List.Sublist.refl before).append (List.singleton_sublist.mpr (by simp)))
    have hbefore : Ordered before := hes.sublist (List.sublist_append_left _ _)
    have hlast : ∀ e ∈ before, e.time ≤ now := by
      rw [Ordered, List.map_append, Window.Times, List.pairwise_append] at hupto
      exact fun e he => hupto.2.2 _ (List.mem_map_of_mem he) now (by simp [RateEvent.time])
    have hnow : t ≤ now := hfrom (.request ip now) (by simp)
    have hfrom' : ∀ e ∈ before, t ≤ e.time := fun e he => hfrom e (by simp [he])
    have hanswer : ∀ {earlier : List RateEvent}, earlier.Sublist before → answer earlier = _ :=
      fun hsub => checkRateLimit_run (hbefore.sublist hsub) (fun e he => hfrom' e (hsub.mem he))
        hnow fun e he => hlast e (hsub.mem he)
    constructor
    · intro hrefused
      have htimes := @times_requests ip _ hupto
      have hlastTime : RateEvent.timeOf ip (.request ip now) = some now := if_pos rfl
      rw [List.filterMap_append, List.filterMap_cons_some hlastTime, List.filterMap_nil] at htimes
      rw [hanswer (List.Sublist.refl before)] at hrefused
      obtain ⟨w, hw, hstart, hend, hcount⟩ :=
        Window.admitted_of_refused (Int.le_of_lt hW) hM htimes (by
          by_contra hle
          exact hrefused (if_neg hle))
      have hstands : Stands now ((run (rateStep W M) .empty before).get? ip) (some w) :=
        hw ▸ stands_run hbefore hfrom' (stands_empty t) hnow hlast
      -- the window is open, so the cleanup has not dropped it
      have hentry : (run (rateStep W M) .empty before).get? ip = some w := by
        rcases hstands with h | ⟨-, hended⟩
        · exact h
        · have := hended w rfl
          omega
      refine ⟨w.resetAt - W, by omega, hstart, ?_, ?_⟩
      · rw [hentry, Option.map_some, Int.sub_add_cancel]
      · rw [passTimes_eq hbefore hfrom' (stands_empty t)]
        exact hcount
    · rw [hanswer (List.Sublist.refl before), hanswer List.filter_sublist,
        filterMap_timeOf_filter]

/-- Two of three requests in one window pass; another address and the timer come between. -/
def refusedRun : List RateEvent :=
  [.request [97] 0, .request [98] 3, .request [97] 4, .cleanup 5, .request [97] 10]

theorem rate_limit_refusedRun :
    ((passTimes 10 2 [97] .empty refusedRun).filter fun t => decide (0 ≤ t ∧ t ≤ 0 + 10)).length ≤
      4 ∧
    ∃ start, 0 ≤ start ∧ start ≤ 10 ∧
      ((passTimes 10 2 [97] .empty (refusedRun.take 4)).filter
        fun t => decide (start ≤ t)).length = 2 := by
  have h := @rate_limit 10 2 (by decide) (by decide) refusedRun (by decide) [97]
  obtain ⟨start, h1, h2, -, h4⟩ :=
    (h.2 (refusedRun.take 4) 10 [] rfl).1 (by decide)
  exact ⟨h.1 0, start, by omega, h2, h4⟩

end Meshezia
