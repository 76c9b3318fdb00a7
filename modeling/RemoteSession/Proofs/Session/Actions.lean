import RemoteSession.Proofs.Stream.Advances
import RemoteSession.Session.Stage

/-!
# What happens to a view

All that is done to the client of a view is an action of its system, so that what is known
of the system holds in a view (`SessionView.act_eq`), and what the client lets others know
reaches the cursors and the user in the same order (`cursors_hearAll`, `events_hearAll`).

A view with nothing between the parts of its calls takes each call as one step
(`SessionView.step`). What runs do between the parts is shown of stages.
-/

namespace RemoteSession

/-- What the client does on its own neither begins nor ends a run. -/
theorem ViewAction.begins_of_own? {b : ViewAction} {a : Action} (h : b.own? = some a) :
    a.begins = false := by
  cases b <;> cases h <;> rfl

/-! ## What is told -/

/-- The events that are shown, in order. -/
def ViewNotice.events (notices : List ViewNotice) : List Event :=
  notices.filterMap fun
    | .stream (.event e) => some e
    | _ => none

namespace SessionView

variable {σ : Type} (service : CursorService σ) (v : SessionView σ)

/-- How far a session was read, as it is kept. -/
def cursor (id : String) : UInt64 :=
  (service.load v.cursors id).getD 0

/-! ## Notices of the client -/

theorem system_hear (notice : Notice) : (v.hear service notice).1.system = v.system := by
  cases notice <;> rfl

theorem attached_hear (notice : Notice) : (v.hear service notice).1.attached = v.attached := by
  cases notice with
  | event e =>
    have hid : ∀ m : SessionMeta, (m.after e).id = m.id := by
      intro m
      unfold SessionMeta.after
      split <;> rfl
    simp only [hear, showEvent, attached, Option.map_map, Function.comp_def, hid]
  | _ => rfl

theorem system_hearAll (notices : List Notice) :
    (v.hearAll service notices).1.system = v.system := by
  induction notices generalizing v with
  | nil => rfl
  | cons notice rest ih => exact (ih _).trans (system_hear service v notice)

theorem attached_hearAll (notices : List Notice) :
    (v.hearAll service notices).1.attached = v.attached := by
  induction notices generalizing v with
  | nil => rfl
  | cons notice rest ih => exact (ih _).trans (attached_hear service v notice)

theorem cursors_hearAll (notices : List Notice) :
    (v.hearAll service notices).1.cursors = service.after v.cursors notices := by
  induction notices generalizing v with
  | nil => rfl
  | cons notice rest ih => cases notice <;> exact ih _

/-- The changes of the timeline that an event makes are no events. -/
theorem events_hearAll (notices : List Notice) :
    ViewNotice.events (v.hearAll service notices).2 = Notice.events notices := by
  induction notices generalizing v with
  | nil => rfl
  | cons notice rest ih =>
    simp only [hearAll, ViewNotice.events, List.filterMap_append] at ih ⊢
    rw [ih]
    cases notice with
    | event e =>
      cases h : (v.showEvent e).2 <;> simp [hear, h, Notice.events]
    | _ => rfl

/-! ## Actions -/

variable {v}

theorem act_eq (a : Action) :
    (v.act service a).1.system = (v.system.step a).1 ∧
      (v.act service a).1.attached = v.attached ∧
        (v.act service a).1.cursors = service.after v.cursors (v.system.step a).2 ∧
          ViewNotice.events (v.act service a).2 = Notice.events (v.system.step a).2 :=
  ⟨system_hearAll .., attached_hearAll .., cursors_hearAll .., events_hearAll ..⟩

variable (v)

/-- The view after something happened, and what it let others know. -/
def step : ViewAction → SessionView σ × List ViewNotice
  | .attach m => v.attach service m
  | .attachFresh m => v.attachFresh service m
  | .stop => v.stop service
  | .detach => v.detach service
  | .rawMode on => ({ v with rawMode := on }, [])
  | .line text tsMs =>
    let (v, _, notices) := v.sendLine text tsMs
    (v, notices)
  | .keys octets => ((v.sendKeystrokes octets).1, [])
  | .send m => ((v.send m).1, [])
  | .resize cols rows => ((v.resize cols rows).1, [])
  | .wake generation cause => v.act service (.wake generation cause)
  | .drop generation => v.act service (.drop generation)
  | .refuse link => v.act service (.refuse link)

/-- The view after some things happened, and what it let others know. -/
def run (v : SessionView σ) : List ViewAction → SessionView σ × List ViewNotice
  | [] => (v, [])
  | a :: rest =>
    let (v, now) := v.step service a
    let (v, later) := run v rest
    (v, now ++ later)

end SessionView

end RemoteSession
