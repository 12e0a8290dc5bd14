import Ytdlpdroid.Concurrent.Prog
import Ytdlpdroid.Model.Throwable

namespace Ytdlpdroid

open Text Concurrent

-- The body of a response: its text, or the exception that reading it throws.
inductive Body
  | text (content : Str)
  | unreadable (e : Throwable)
  deriving DecidableEq

structure Response where
  code : Int
  message : Str := []
  body : Option Body
  deriving DecidableEq

-- A response whose body is absent or empty needs no closing to release its connection.
def Response.hasContent (response : Response) : Bool :=
  match response.body with
  | none | some (.text []) => false
  | _ => true

def Response.isSuccessful (response : Response) : Bool := 200 ≤ response.code && response.code ≤ 299

-- What one exchange with the network gives.
inductive Downstream
  | response (response : Response)
  | failure (e : Throwable)

-- The chain of one call. `obtained` lists the responses that `proceed` returned, `closed` the
-- positions in it of the responses closed, and `proceeds` tells for each call of `proceed`
-- whether a response obtained before was then open.
structure Chain where
  downstream : Nat → Downstream
  obtained : List Response := []
  closed : List Nat := []
  proceeds : List Bool := []

namespace Chain

def isOpen (chain : Chain) (index : Nat) : Bool :=
  match chain.obtained[index]? with
  | none => false
  | some response => response.hasContent && !chain.closed.contains index

def anyOpen (chain : Chain) : Bool := (List.range chain.obtained.length).any chain.isOpen

def stillOpen : Throwable :=
  ⟨.illegalStateException, some (str
    "cannot make a new request because the previous response is still open: please call response.close()"),
    []⟩

-- A response comes with its position among those obtained.
def proceed : Prog Chain Throwable (Nat × Response) :=
  .attemptAtomic fun chain =>
    let called := { chain with proceeds := chain.proceeds ++ [chain.anyOpen] }
    if chain.anyOpen then (.error stillOpen, called)
    else match chain.downstream chain.proceeds.length with
      | .failure e => (.error e, called)
      | .response response =>
          (.ok (chain.obtained.length, response),
            { called with obtained := chain.obtained ++ [response] })

def close (index : Nat) : Prog Chain Throwable Unit :=
  .atomic fun chain => ((), { chain with closed := chain.closed ++ [index] })

end Chain

structure RetryInterceptor where
  maxRetries : Nat
  retryOnStatusCodes : List Int

namespace RetryInterceptor

-- `lastResponse!!` when the loop ran no round.
def noResponse : Throwable := ⟨.runtimeException, none, []⟩

-- `lastResponse?.close()`
def closeHeld : Option (Nat × Response) → Prog Chain Throwable Unit
  | none => .pure ()
  | some (index, _) => Chain.close index

-- The rounds that are left, and the response held. The sleep between rounds only takes time.
def rounds (interceptor : RetryInterceptor) :
    Nat → Option (Nat × Response) → Prog Chain Throwable (Nat × Response)
  | 0, some lastResponse => .pure lastResponse
  | 0, none => .throw noResponse
  | left + 1, lastResponse => do
      let response ← Chain.proceed
      if response.2.code ∉ interceptor.retryOnStatusCodes then
        return response
      else do
        closeHeld lastResponse
        interceptor.rounds left (some response)

def intercept (interceptor : RetryInterceptor) : Prog Chain Throwable (Nat × Response) :=
  interceptor.rounds (interceptor.maxRetries + 1) none

end RetryInterceptor

-- An HTTP client: the library's own, with its interceptor, or one that the caller
-- supplied, with none.
structure HttpClient where
  interceptor : Option RetryInterceptor

namespace HttpClientProvider

def retryInterceptor : RetryInterceptor := ⟨3, [429, 500, 502, 503]⟩

def client : HttpClient := ⟨some retryInterceptor⟩

end HttpClientProvider

-- The outcome of one call, given what each of its exchanges meets.
def HttpClient.execute (client : HttpClient) (downstream : Nat → Downstream) :
    Except Throwable Response :=
  match client.interceptor with
  | none =>
      match downstream 0 with
      | .failure e => .error e
      | .response response => .ok response
  | some interceptor =>
      match (interceptor.intercept.run { downstream }).1 with
      | .ok (_, response) => .ok response
      | .error e => .error e

end Ytdlpdroid
