import Ferrisetw2.Lib.Checked
import Ferrisetw2.Lib.HashMap

/-!
# Trace contexts

A trace hands the framework an id, and the id comes back with every event. A registry maps the ids
of the open traces to their callback data. Ids come from a counter, and the registry compares them
only. `evntrace.rs`.

## Main definitions

* `ContextRegistry` — the registry and the counter
* `ContextRegistry.new`, `ContextRegistry.unregister`, `ContextRegistry.get`

## Main results

* `get_insert`, `get_unregister` — what an update changes
* `get_unregister_new` — what is left of a context that is dropped again
-/

namespace Ferrisetw2

open Rust

variable {D : Type}

/-- `CONTEXT_REGISTRY`, and `NEXT_CONTEXT_ID`. `D` is `Arc<CallbackData>`. -/
structure ContextRegistry (D : Type) where
  entries : HashMap ℕ D
  nextId : ℕ

/-- What the ids a process hands out can count to. -/
def usizeCount (t : Target) : ℕ := t.usizeMax + 1

namespace ContextRegistry

/-- Both statics, as the process starts: ids are never null. -/
def start : ContextRegistry D := ⟨∅, 1⟩

/-- `TraceContextId::mint`. The counter is atomic, so it wraps in every build. -/
def mint (t : Target) (reg : ContextRegistry D) : ℕ × ContextRegistry D :=
  (reg.nextId, { reg with nextId := (reg.nextId + 1) % usizeCount t })

/-- `insert`. -/
def insert (reg : ContextRegistry D) (id : ℕ) (data : D) : ContextRegistry D :=
  { reg with entries := reg.entries.insert id data }

/-- `remove`, which is all that `TraceContext::unregister` does. -/
def unregister (reg : ContextRegistry D) (id : ℕ) : ContextRegistry D :=
  { reg with entries := reg.entries.erase id }

/-- `get`. -/
def get (reg : ContextRegistry D) (id : ℕ) : Option D := reg.entries.lookup id

/-- `TraceContext::new`. -/
def new (t : Target) (reg : ContextRegistry D) (data : D) : ℕ × ContextRegistry D :=
  let (id, reg) := reg.mint t
  (id, reg.insert id data)

variable {reg : ContextRegistry D}

theorem get_insert (id id' : ℕ) (data : D) :
    (reg.insert id data).get id' = if id' = id then some data else reg.get id' :=
  HashMap.lookup_insert_eq ..

theorem get_unregister (id id' : ℕ) :
    (reg.unregister id).get id' = if id' = id then none else reg.get id' :=
  HashMap.lookup_erase_eq ..

/-- Unregistering twice is unregistering once. -/
theorem unregister_unregister (id : ℕ) : (reg.unregister id).unregister id = reg.unregister id := by
  rw [unregister, unregister]
  refine congrArg (ContextRegistry.mk · reg.nextId) (Finmap.ext_lookup fun id' => ?_)
  rw [HashMap.lookup_erase_eq]
  split
  · rename_i h
    rw [h, Finmap.lookup_erase]
  · rfl

theorem get_new (reg : ContextRegistry D) (t : Target) (data : D) (id : ℕ) :
    (reg.new t data).2.get id = if id = (reg.new t data).1 then some data else reg.get id :=
  get_insert ..

/-- A context that is dropped again is not found, and no other is found that was not before. -/
theorem get_unregister_new (reg : ContextRegistry D) (t : Target) (data : D) (id : ℕ) :
    ((reg.new t data).2.unregister (reg.new t data).1).get id =
      if id = (reg.new t data).1 then none else reg.get id := by
  rw [get_unregister, get_new]
  split <;> rfl

end ContextRegistry

end Ferrisetw2
