/-!
# Programs

Requests form a type, and each request has a type of replies. A program is a computation that stops at
every request it makes and goes on with the reply. Since what follows a request is a function of the
reply, a program that has stopped is an ordinary value: it can be kept, answered later, or dropped.
Giving each request a program over other requests interprets the whole program there; nothing but the
replies can influence it.
-/

namespace FlowGraph

/-- A computation that makes requests, each replied with a value of its own type, and ends with a
result. -/
inductive Program {R : Type} (Reply : R → Type) (α : Type) : Type where
  | done (result : α)
  | ask (request : R) (next : Reply request → Program Reply α)

namespace Program

variable {R S : Type} {E : R → Type} {F : S → Type} {α β γ : Type}

/-- Goes on with another program once this one is done. -/
def andThen : Program E α → (α → Program E β) → Program E β
  | done a, f => f a
  | ask r next, f => ask r fun x => (next x).andThen f

instance : Monad (Program E) where
  pure := done
  bind := andThen

/-- Makes a request and returns the reply. -/
def request (r : R) : Program E (E r) :=
  ask r done

/-- Replaces every request by a program over other requests. -/
def interpret (answer : (r : R) → Program F (E r)) : Program E α → Program F α
  | done a => done a
  | ask r next => (answer r).andThen fun x => (next x).interpret answer

@[simp] theorem pure_eq (a : α) : (pure a : Program E α) = done a := rfl

@[simp] theorem bind_eq (p : Program E α) (f : α → Program E β) : p >>= f = p.andThen f := rfl

@[simp] theorem done_andThen (a : α) (f : α → Program E β) : (done a).andThen f = f a := rfl

@[simp] theorem ask_andThen (r : R) (next : E r → Program E α) (f : α → Program E β) :
    (ask r next).andThen f = ask r fun x => (next x).andThen f := rfl

@[simp] theorem request_andThen (r : R) (f : E r → Program E β) :
    (request r : Program E _).andThen f = ask r f := rfl

@[simp] theorem andThen_done (p : Program E α) : p.andThen done = p := by
  induction p with
  | done => rfl
  | ask r next ih => simp [ih]

theorem andThen_assoc (p : Program E α) (f : α → Program E β) (g : β → Program E γ) :
    (p.andThen f).andThen g = p.andThen fun a => (f a).andThen g := by
  induction p with
  | done => rfl
  | ask r next ih => simp [ih]

end Program

end FlowGraph
