import PackageSheet.Token.Gap
import PackageSheet.Token.Lexeme

namespace PackageSheet

/-- A stream of tokens over a text, at some place in it. -/
structure TokenStream where
  dialect : Dialect
  source : List Char
  position : Position
  rest : List Char

namespace TokenStream

def ofText (dialect : Dialect) (source : List Char) : TokenStream :=
  ⟨dialect, source, {}, source⟩

def restart (stream : TokenStream) : TokenStream :=
  ofText stream.dialect stream.source

/-- Ask for the next token. If only a gap is left there is none, and the stream is then at the end
of the text. -/
def next (stream : TokenStream) : Option Token × TokenStream :=
  let (gap, rest) := Gap.blank.split stream.rest
  let start := stream.position.after gap
  match rest with
  | [] => (none, { stream with position := start, rest := [] })
  | c :: cs =>
    let lexeme := Lexeme.read stream.dialect c cs
    let stop := start.after lexeme.spelling
    (some ⟨lexeme.kind, String.ofList lexeme.text, start.offset, stop.offset, start.line,
      start.column⟩, { stream with position := stop, rest := lexeme.rest })

/-- The next token, and the stream after it; `none` if only a gap is left. -/
def next? (stream : TokenStream) : Option (Token × TokenStream) :=
  match stream.next with
  | (some token, after) => some (token, after)
  | (none, _) => none

theorem next?_eq_none {stream : TokenStream} : stream.next? = none ↔ stream.next.1 = none := by
  unfold next?
  split <;> simp_all

theorem next?_eq_some {stream after : TokenStream} {token : Token} :
    stream.next? = some (token, after) ↔ stream.next = (some token, after) := by
  unfold next?
  split <;> simp_all

/-- Every token takes at least one character of the text. -/
theorem length_rest_of_next? {stream after : TokenStream} {token : Token}
    (h : stream.next? = some (token, after)) : after.rest.length < stream.rest.length := by
  have whole := Gap.split_append .blank stream.rest
  rw [next?_eq_some] at h
  unfold next at h
  generalize Gap.blank.split stream.rest = parts at h whole
  obtain ⟨gap, rest⟩ := parts
  cases rest with
  | nil => simp at h
  | cons c cs =>
    have parts := congrArg List.length (Lexeme.read_append stream.dialect c cs)
    have some := List.length_pos_iff.mpr (Lexeme.read_spelling_ne_nil stream.dialect c cs)
    have whole := congrArg List.length whole
    simp only [Prod.mk.injEq] at h
    obtain ⟨-, rfl⟩ := h
    simp only [List.length_append, List.length_cons] at parts whole ⊢
    omega

/-- All tokens from here on. -/
def tokens (stream : TokenStream) : List Token :=
  match _h : stream.next? with
  | none => []
  | some (token, after) => token :: after.tokens
termination_by stream.rest.length
decreasing_by exact length_rest_of_next? _h

theorem tokens_eq_nil {stream : TokenStream} (h : stream.next? = none) : stream.tokens = [] := by
  rw [tokens]
  split <;> simp_all

theorem tokens_eq_cons {stream after : TokenStream} {token : Token}
    (h : stream.next? = some (token, after)) : stream.tokens = token :: after.tokens := by
  rw [tokens]
  split <;> simp_all

/-- The next tokens, at most a number of them, and the stream after them. -/
def take : Nat → TokenStream → List Token × TokenStream
  | 0, stream => ([], stream)
  | n + 1, stream =>
    match stream.next? with
    | none => ([], stream)
    | some (token, after) =>
      let (tokens, last) := take n after
      (token :: tokens, last)

end TokenStream

def Token.ofText (dialect : Dialect) (text : String) : List Token :=
  (TokenStream.ofText dialect text.toList).tokens

end PackageSheet
