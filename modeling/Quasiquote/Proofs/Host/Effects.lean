import Mathlib.Tactic.Common
import Quasiquote.Proofs.Host.Growth
import Quasiquote.Proofs.Quoter.Dispatch

/-!
# What statements bind

Statements read names and bind names. What they bind depends on the objects that there are and on what
the names that they read mean, and on nothing else. So a block that stages its bindings and hands them to
the frame in the end binds the same as one that binds each name in the frame at once.

## Main Definitions

* `Host.overlay` — a look-up of names with some bindings made over it
* `Host.effects` — the bindings that statements make, one after another
* `Host.execIn` — running statements in a frame itself
-/

namespace Quasiquote

namespace Host

variable {α β σ : Type}

/-! ### Names -/

mutual

/-- The names that an expression looks up. -/
def Expr.names : Expr → List String
  | .const _ => []
  | .name id => [id]
  | .list items => namesOf items
  | .unary _ operand => operand.names
  | .binary _ left right => left.names ++ right.names
  | .compare first chain => first.names ++ namesOfChain chain
  | .not operand => operand.names
  | .and left right => left.names ++ right.names
  | .or left right => left.names ++ right.names
  | .ifElse condition body orElse => condition.names ++ body.names ++ orElse.names
  | .index target position => target.names ++ position.names
  | .call _ arguments => namesOf arguments

/-- The names that some expressions look up. -/
def namesOf : List Expr → List String
  | [] => []
  | e :: rest => e.names ++ namesOf rest

/-- The names that a chain of comparisons looks up. -/
def namesOfChain : List (CompareOp × Expr) → List String
  | [] => []
  | (_, e) :: rest => e.names ++ namesOfChain rest

end

/-- The names that a statement looks up. -/
def Stmt.reads : Stmt → List String
  | .assign _ value => value.names
  | .augAssign name _ value => name :: value.names
  | .expr value => value.names
  | .pass => []

/-- The names that a statement binds. -/
def Stmt.binds : Stmt → List String
  | .assign name _ => [name]
  | .augAssign name _ _ => [name]
  | .expr _ => []
  | .pass => []

section Congruence

variable {look other : String → Option Ref}

mutual

/-- The value of an expression depends on the names that it looks up, and on no other. -/
theorem eval_congr (e : Expr) (h : ∀ n ∈ e.names, look n = other n) : eval look e = eval other e := by
  cases e with
  | const value => rfl
  | name id => simp only [eval, h id (List.mem_singleton.2 rfl)]
  | list items => simp only [eval, evalAll_congr items h]
  | unary op operand => simp only [eval, eval_congr operand h]
  | binary op left right =>
    obtain ⟨hleft, hright⟩ := List.forall_mem_append.1 h
    simp only [eval, eval_congr left hleft, eval_congr right hright]
  | compare first chain =>
    obtain ⟨hfirst, hchain⟩ := List.forall_mem_append.1 h
    simp only [eval, eval_congr first hfirst, evalChain_congr chain hchain]
  | not operand => simp only [eval, eval_congr operand h]
  | and left right =>
    obtain ⟨hleft, hright⟩ := List.forall_mem_append.1 h
    simp only [eval, eval_congr left hleft, eval_congr right hright]
  | or left right =>
    obtain ⟨hleft, hright⟩ := List.forall_mem_append.1 h
    simp only [eval, eval_congr left hleft, eval_congr right hright]
  | ifElse condition body orElse =>
    obtain ⟨hfront, horElse⟩ := List.forall_mem_append.1 h
    obtain ⟨hcondition, hbody⟩ := List.forall_mem_append.1 hfront
    simp only [eval, eval_congr condition hcondition, eval_congr body hbody,
      eval_congr orElse horElse]
  | index target position =>
    obtain ⟨htarget, hposition⟩ := List.forall_mem_append.1 h
    simp only [eval, eval_congr target htarget, eval_congr position hposition]
  | call function arguments => simp only [eval, evalAll_congr arguments h]

theorem evalAll_congr (items : List Expr) (h : ∀ n ∈ namesOf items, look n = other n) :
    evalAll look items = evalAll other items := by
  cases items with
  | nil => rfl
  | cons e rest =>
    obtain ⟨he, hrest⟩ := List.forall_mem_append.1 h
    simp only [evalAll, eval_congr e he, evalAll_congr rest hrest]

theorem evalChain_congr (chain : List (CompareOp × Expr))
    (h : ∀ n ∈ namesOfChain chain, look n = other n) (left : Ref) :
    evalChain look left chain = evalChain other left chain := by
  cases chain with
  | nil => rfl
  | cons p rest =>
    obtain ⟨op, e⟩ := p
    obtain ⟨he, hrest⟩ := List.forall_mem_append.1 h
    simp only [evalChain, eval_congr e he, evalChain_congr rest hrest]

end

end Congruence

/-! ### Bindings -/

/-- A look-up of names with some bindings made over it. -/
def overlay (look : String → Option Ref) (made : Bindings) (name : String) : Option Ref :=
  (Table.last? made name).or (look name)

@[simp] theorem overlay_nil (look : String → Option Ref) : overlay look [] = look := rfl

theorem overlay_overlay (look : String → Option Ref) (a b : Bindings) :
    overlay (overlay look a) b = overlay look (a ++ b) := by
  funext name
  rw [overlay, overlay, overlay, Table.last?_append, Option.or_assoc]

/-- The binding that a statement makes, if it makes one. -/
def Stmt.effect (look : String → Option Ref) : Stmt → Computation Bindings
  | .assign name value => do
    let r ← eval look value
    return [(name, r)]
  | .augAssign name op value => do
    match look name with
    | none => throw (.unbound name)
    | some current => do
      let operand ← eval look value
      let r ← binary op current operand
      return [(name, r)]
  | .expr value => do
    let _ ← eval look value
    return []
  | .pass => return []

/-- The bindings that statements make, one after another. -/
def effects (look : String → Option Ref) : List Stmt → Computation Bindings
  | [] => return []
  | s :: rest => do
    let made ← s.effect look
    let more ← effects (overlay look made) rest
    return made ++ more

theorem effects_append (look : String → Option Ref) (a b : List Stmt) :
    effects look (a ++ b) = (do
      let made ← effects look a
      let more ← effects (overlay look made) b
      return made ++ more) := by
  induction a generalizing look with
  | nil => simp [effects]
  | cons s a ih =>
    simp only [List.cons_append, effects, ih, overlay_overlay, bind_assoc, pure_bind,
      List.append_assoc]

/-- Statements bind the same wherever the names that they look up mean the same. The names need not be
known to be looked up, it is enough that they have some property. -/
theorem effects_congr {p : String → Prop} {look other : String → Option Ref}
    (hlook : ∀ n, p n → look n = other n) {statements : List Stmt}
    (hreads : ∀ s ∈ statements, ∀ n ∈ s.reads, p n) :
    effects look statements = effects other statements := by
  induction statements generalizing look other with
  | nil => rfl
  | cons s rest ih =>
    obtain ⟨hs, hrest⟩ := List.forall_mem_cons.1 hreads
    have heffect : s.effect look = s.effect other := by
      cases s with
      | assign name value => simp only [Stmt.effect, eval_congr value fun n hn => hlook n (hs n hn)]
      | augAssign name op value =>
        have hname := hlook name (hs name List.mem_cons_self)
        have hvalue := eval_congr value fun n hn => hlook n (hs n (List.mem_cons_of_mem name hn))
        simp only [Stmt.effect, hname, hvalue]
      | expr value => simp only [Stmt.effect, eval_congr value fun n hn => hlook n (hs n hn)]
      | pass => rfl
    have hover (made : Bindings) (n : String) (hn : p n) :
        overlay look made n = overlay other made n := by
      rw [overlay, overlay, hlook n hn]
    simp only [effects, heffect, ih (hover _) hrest]

theorem grows_effect (look : String → Option Ref) (s : Stmt) : Grows (s.effect look) := by
  cases s with
  | assign name value => exact (grows_eval look value).bind fun _ => grows_pure _
  | augAssign name op value =>
    simp only [Stmt.effect]
    split
    · exact grows_throw _
    · exact (grows_eval look value).bind fun operand => (grows_binary op _ operand).bind fun _ =>
        grows_pure _
  | expr value => exact (grows_eval look value).bind fun _ => grows_pure _
  | pass => exact grows_pure _

theorem grows_effects (look : String → Option Ref) (statements : List Stmt) :
    Grows (effects look statements) := by
  induction statements generalizing look with
  | nil => exact grows_pure _
  | cons s rest ih =>
    exact (grows_effect look s).bind fun made => (ih (overlay look made)).bind fun _ => grows_pure _

/-- A statement makes bindings of the names that it binds. -/
theorem keys_effect {look : String → Option Ref} {s : Stmt} {h g : Heap} {made : Bindings}
    (hmade : s.effect look h = .ok (made, g)) : Table.keys made = s.binds := by
  cases s with
  | assign name value =>
    obtain ⟨r, k, -, hr⟩ := bind_eq_ok.1 hmade
    cases hr
    rfl
  | augAssign name op value =>
    simp only [Stmt.effect] at hmade
    cases hlook : look name with
    | none =>
      rw [hlook] at hmade
      cases hmade
    | some current =>
      rw [hlook] at hmade
      obtain ⟨operand, k, -, hoperand⟩ := bind_eq_ok.1 hmade
      obtain ⟨r, k, -, hr⟩ := bind_eq_ok.1 hoperand
      cases hr
      rfl
  | expr value =>
    obtain ⟨r, k, -, hr⟩ := bind_eq_ok.1 hmade
    cases hr
    rfl
  | pass =>
    cases hmade
    rfl

theorem keys_effects {look : String → Option Ref} {statements : List Stmt} {h g : Heap}
    {made : Bindings} (hmade : effects look statements h = .ok (made, g)) :
    Table.keys made = statements.flatMap Stmt.binds := by
  induction statements generalizing look h made with
  | nil =>
    cases hmade
    rfl
  | cons s rest ih =>
    obtain ⟨first, k, hfirst, htail⟩ := bind_eq_ok.1 hmade
    obtain ⟨more, k', hmore, hend⟩ := bind_eq_ok.1 htail
    cases hend
    rw [List.flatMap_cons, ← keys_effect hfirst, ← ih hmore, Table.keys, Table.keys, Table.keys,
      List.map_append]

/-! ### Running statements in a frame -/

/-- Run a statement in a frame itself: a name is looked up in the frame and bound in it. -/
def stepIn (f : Frame) : Stmt → Computation Frame
  | .assign name value => do
    let r ← eval f.get? value
    return f.set name r
  | .augAssign name op value => do
    match f.get? name with
    | none => throw (.unbound name)
    | some current => do
      let operand ← eval f.get? value
      let r ← binary op current operand
      return f.set name r
  | .expr value => do
    let _ ← eval f.get? value
    return f
  | .pass => return f

/-- Run statements in a frame itself, one after another. -/
def execIn (f : Frame) : List Stmt → Computation Frame
  | [] => return f
  | s :: rest => do
    let g ← stepIn f s
    execIn g rest

theorem stepIn_eq (f : Frame) (s : Stmt) :
    stepIn f s = (do
      let made ← s.effect f.get?
      return f.setAll made) := by
  cases s with
  | assign name value => simp [stepIn, Stmt.effect, Frame.setAll]
  | augAssign name op value =>
    simp only [stepIn, Stmt.effect]
    cases f.get? name with
    | none => rfl
    | some current => simp [Frame.setAll]
  | expr value => simp [stepIn, Stmt.effect]
  | pass => simp [stepIn, Stmt.effect]

/-- Running statements in a frame makes their bindings in it. -/
theorem execIn_eq {f : Frame} (h : f.Sound) (statements : List Stmt) :
    execIn f statements = (do
      let made ← effects f.get? statements
      return f.setAll made) := by
  induction statements generalizing f with
  | nil => simp [execIn, effects]
  | cons s rest ih =>
    have hnext (made : Bindings) : (f.setAll made).get? = overlay f.get? made :=
      funext (h.get?_setAll made)
    simp only [execIn, effects, stepIn_eq, ih (h.setAll _), hnext, bind_assoc, pure_bind,
      Frame.setAll_append]

end Host

end Quasiquote
