import Treewalk.Store

/-! How frames are shown: by their shape, because a frame can hold a closure that captures it. -/
namespace Treewalk
namespace Store

/-- A frame as seen from outside: how much it binds, and whether it is global. -/
def frameText (s : Store) (e : FrameId) : String :=
  "Environment \x7b bindings: " ++ toString (s.count e) ++ ", global: " ++
    (if s.isGlobal e then "true" else "false") ++ " \x7d"

/-- A frame with its bindings and the shape of its outer frame. Bindings are shown in no fixed order,
so there is a text only if at most one is there. -/
def scopeText? (s : Store) (e : FrameId) : Option String :=
  let outer := match s.outer? e with
    | some o => "Some(" ++ s.frameText o ++ ")"
    | none => "None"
  let text (bindings : String) :=
    "LocalScope(RefCell \x7b value: Scope \x7b bindings: \x7b" ++ bindings ++ "\x7d, outer: " ++
      outer ++ " \x7d \x7d)"
  match s.toList e with
  | [] => some (text "")
  | [(n, v)] => some (text (n.debugText ++ ": " ++ v.debugText))
  | _ => none

end Store
end Treewalk
