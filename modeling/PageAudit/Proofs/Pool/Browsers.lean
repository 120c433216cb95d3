import PageAudit.Proofs.Pool.Session
import PageAudit.Proofs.Supervisor.Receding

/-!
# The browsers of a pool at work

Only an attempt in flight that was not told to stop gets a browser. Whatever else a pool at work does gives browsers
up.
-/

namespace PageAudit.PoolSession

open Supervisor

variable {x : PoolSession}

theorem recedes_forceOn (x : PoolSession) (k : Kills) :
    Recedes x.site.supervisor (x.forceOn k).site.supervisor := by
  unfold forceOn
  dsimp only
  split <;> exact k.recedes_poll _

theorem recedes_turnOn (x : PoolSession) : Recedes x.site.supervisor x.turnOn.site.supervisor := by
  unfold turnOn
  dsimp only
  split
  · have hforced := recedes_forceOn
      { x with pool := x.pool.poll, site := { x.site with supervisor := (Kills.ofAll x.site.supervisor).1 } }
      (Kills.ofAll x.site.supervisor).2
    exact (recedes_drain _).trans hforced
  · exact .refl _

theorem recedes_pollPool (x : PoolSession) : Recedes x.site.supervisor x.pollPool.site.supervisor := by
  unfold pollPool
  dsimp only
  rw [noteEnd_site]
  cases x.forced with
  | some k =>
      dsimp only
      split <;> exact x.recedes_forceOn k
  | none =>
      dsimp only
      split <;> exact x.recedes_turnOn

theorem recedes_pollAttempt {seq : Nat} (h : x.pool.isInFlight seq = true → x.pool.hardStopped = true) :
    Recedes x.site.supervisor (x.pollAttempt seq).site.supervisor := by
  unfold pollAttempt
  split
  · exact .refl _
  · rename_i a _
    split
    · exact .refl _
    · split
      · rename_i hflying
        have hstop : (x.pool.signals seq).stop = true := by simp [Pool.signals, h hflying]
        have hpoll := a.recedes_poll x.site hstop
        dsimp only
        split
        · rw [putAttempt_site]
          exact hpoll
        · rw [putAttempt_site]
          exact hpoll
      · rw [putAttempt_site]
        exact a.recedes_drop x.site

/-- While all attempts in flight are told to stop, no browser is started or registered. -/
theorem recedes_poll (h : ∀ seq, x.pool.isInFlight seq = true → x.pool.hardStopped = true) (t : PoolTask) :
    Recedes x.site.supervisor (x.poll t).site.supervisor := by
  cases t with
  | turns => exact x.recedes_pollPool
  | attempt seq => exact recedes_pollAttempt (h seq)
  | background n => exact x.site.recedes_pollBackground n

end PageAudit.PoolSession
