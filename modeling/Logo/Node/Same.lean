import Logo.Node

/-!
# Sameness of nodes

Two nodes are the same when they are built alike from the same parts; floating-point numbers are
compared as numbers, so not-a-number differs from itself.  Host functions are the same only if they
come from one registration.
-/

namespace Logo

mutual

/-- Whether two nodes are built alike. -/
def Node.same : Node → Node → Bool
  | .integer a, .integer b => a == b
  | .float a, .float b => a == b
  | .boolean a, .boolean b => a == b
  | .nil, .nil => true
  | .none, .none => true
  | .quoted a, .quoted b => a == b
  | .symbol a, .symbol b => a == b
  | .reference a, .reference b => a == b
  | .list as, .list bs => Node.sameEach as bs
  | .call name arity as parenthesized, .call name' arity' bs parenthesized' =>
    name == name' && arity == arity' && Node.sameEach as bs && parenthesized == parenthesized'
  | .procedure p, .procedure q => p.same q
  | _, _ => false

/-- Whether two sequences of nodes are built alike. -/
def Node.sameEach : List Node → List Node → Bool
  | [], [] => true
  | a :: as, b :: bs => a.same b && Node.sameEach as bs
  | _, _ => false

/-- Whether two procedures agree in every part. -/
def Procedure.same : Procedure → Procedure → Bool
  | ⟨name, params, body, source, line⟩, q =>
    name == q.name && params == q.params && body.same q.body && source == q.source &&
      line == q.line

/-- Whether two bodies do the same. -/
def Body.same : Body → Body → Bool
  | .host kind function, .host kind' function' => kind == kind' && function == function'
  | .user as, .user bs => Node.sameEach as bs
  | _, _ => false

end

end Logo
