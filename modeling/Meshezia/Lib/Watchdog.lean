import Mathlib.Algebra.Order.Ring.Defs
import Mathlib.Tactic.Linarith

/-!
# Watchdogs and heartbeats

A watchdog looks every `period` whether it has been fed in the last `limit`, and barks if not.
A heart beats every `period`, and what it sends takes at most `delay`.  A timer fires at most
`slack` late.

    Watched limit period fed due       the next look is due by `fed + limit + period`
    Beaten period slack fed due sent   the next beat is due by `fed + period`, or one that was
                                       sent by `fed + period + slack` is on the way
    Abandoned t₀ delay fed sent        nothing is sent after `t₀`

Each is kept by what the two do, and the first two bound the time since `fed` (`silence_le`).
-/

namespace Meshezia

/-- An event and the time at which it happens. -/
structure At (ε : Type) where
  now : Int
  event : ε
deriving DecidableEq, Repr

section
variable {τ : Type} [CommRing τ] [LinearOrder τ]
variable {limit period slack delay fed due now t₀ : τ} {sent sent' : List τ}

/-- The next look comes at most a period after the food has run out. -/
def Watched (limit period fed due : τ) : Prop := due ≤ fed + limit + period

/-- The next beat is due within a period of the food, or one that was is on the way. -/
def Beaten (period slack fed due : τ) (sent : List τ) : Prop :=
  due ≤ fed + period ∨ ∃ t ∈ sent, t ≤ fed + period + slack

/-- Nothing is sent after `t₀`, so nothing is fed after `t₀ + delay`. -/
structure Abandoned (t₀ delay fed : τ) (sent : List τ) : Prop where
  fed_le : fed ≤ t₀ + delay
  sent_le : ∀ t ∈ sent, t ≤ t₀

theorem Beaten.subset (h : Beaten period slack fed due sent) (hsub : sent ⊆ sent') :
    Beaten period slack fed due sent' :=
  h.imp id fun ⟨t, ht, hle⟩ => ⟨t, hsub ht, hle⟩

theorem Abandoned.subset (h : Abandoned t₀ delay fed sent) (hsub : sent' ⊆ sent) :
    Abandoned t₀ delay fed sent' := ⟨h.fed_le, fun t ht => h.sent_le t (hsub ht)⟩

variable [IsStrictOrderedRing τ]

/-! ## The watchdog -/

theorem Watched.start (hlimit : 0 ≤ limit) (now : τ) : Watched limit period now (now + period) := by
  unfold Watched
  linarith

theorem Watched.feed (h : Watched limit period fed due) (hle : fed ≤ now) :
    Watched limit period now due := by
  unfold Watched at *
  linarith

/-- A look that does not bark. -/
theorem Watched.look (hfed : now - fed ≤ limit) : Watched limit period fed (now + period) := by
  unfold Watched
  linarith

theorem Watched.silence_le (h : Watched limit period fed due) (hnow : now ≤ due + slack) :
    now - fed ≤ limit + period + slack := by
  unfold Watched at h
  linarith

/-! ## The heart -/

/-- A beat at `now`, whenever the next one is due. -/
theorem Beaten.beat (h : Beaten period slack fed due sent) (hnow : now ≤ due + slack)
    (hsub : sent ⊆ sent') (hmem : now ∈ sent') (due' : τ) :
    Beaten period slack fed due' sent' := by
  rcases h with hdue | hsent
  · exact Or.inr ⟨now, hmem, by linarith⟩
  · exact Beaten.subset (Or.inr hsent) hsub

theorem Beaten.silence_le (h : Beaten period slack fed due sent) (hdelay : 0 ≤ delay)
    (hdue : now ≤ due + slack) (hsent : ∀ t ∈ sent, now ≤ t + delay) :
    now - fed ≤ period + slack + delay := by
  rcases h with hle | ⟨t, ht, hle⟩
  · linarith
  · have := hsent t ht
    linarith

/-! ## No more beats -/

/-- One of those on the way arrives. -/
theorem Abandoned.feed (h : Abandoned t₀ delay fed sent) {t : τ} (ht : t ∈ sent)
    (hnow : now ≤ t + delay) (hsub : sent' ⊆ sent) : Abandoned t₀ delay now sent' := by
  have hle := h.sent_le t ht
  exact ⟨by linarith, (h.subset hsub).sent_le⟩

end

end Meshezia
