import Treadmill.Proofs.Eager
import Treadmill.Proofs.World.Course

/-!
Worlds and what leads to them, worked out.
-/

namespace Treadmill.Eager
variable {L : Layout} {α γ : Type}

instance : Eager Moment where
  work t ask := eagerly t.s fun s => eagerly t.us fun us => ask ⟨s, us⟩
  work_eq := by simp

instance : Eager (Behavior α) where
  work b ask :=
    match b with
    | .sink => ask .sink
    | .reportError => ask .reportError
    | .check => ask .check
    | .trace => ask .trace
    | .printText => ask .printText
    | .printLine => ask .printLine
    | .hello => ask .hello
    | .countdown => ask .countdown
    | .eachSecond => ask .eachSecond
    | .ticker => ask .ticker
    | .host name => ask (.host name)
  work_eq b _ := by cases b <;> rfl

/-- The names and the data of the host are looked at too seldom to be worth it. -/
instance : Eager (World L α γ) where
  work w ask :=
    eagerly w.heap fun heap => eagerly w.behaviors fun behaviors =>
      eagerly w.mailFirst fun mailFirst => eagerly w.mailLast fun mailLast =>
        eagerly w.pending fun pending => eagerly w.capacity fun capacity =>
          eagerly w.inDelivery fun inDelivery => eagerly w.timers fun timers =>
            eagerly w.delayed fun delayed => eagerly w.roots fun roots => eagerly w.pool fun pool =>
              eagerly w.poolUsed fun poolUsed => eagerly w.poolMax fun poolMax =>
                eagerly w.delivered fun delivered => eagerly w.now fun now => eagerly w.traced fun traced =>
                  ask ⟨heap, w.symbols, behaviors, mailFirst, mailLast, pending, capacity, inDelivery,
                    timers, delayed, roots, pool, poolUsed, poolMax, delivered, now, traced, w.guest⟩
  work_eq := by simp

instance : Eager (Opened L α) where
  work d ask :=
    eagerly d.entry fun entry => eagerly d.outer fun outer => eagerly d.delivery.this fun this =>
      eagerly d.delivery.what fun what => eagerly d.behavior fun behavior =>
        ask ⟨entry, outer, ⟨this, what⟩, behavior⟩
  work_eq := by simp

instance : Eager (World.Point L α γ) where
  work p ask := eagerly p.logged fun logged => eagerly p.opened fun opened => ask ⟨logged, opened⟩
  work_eq := by simp

instance : Eager (World.Moved L α γ) where
  work m ask := eagerly m.outcome fun outcome => ask ⟨m.move, outcome⟩
  work_eq := by simp

end Treadmill.Eager
