import TimedHttp.Dispatch.App

/-!
# Connections

One request comes in over a connection and one response goes out. A request whose body cannot be
read is answered with 400 and never reaches the application.
-/

namespace TimedHttp

/-- **Incoming request**, as read off a connection. -/
structure Incoming where
  method : Method
  uri : Uri
  header : Header := []
  /-- the body, or why it could not be read -/
  body : Except String (List UInt8)
  remoteAddress : SocketAddress
  localAddress : SocketAddress

/-- The request, if its body could be read. -/
def Incoming.request (r : Incoming) : Except String Request :=
  r.body.map fun body =>
    { method := r.method
      uri := r.uri
      header := r.header
      body
      remoteAddress := some r.remoteAddress
      localAddress := some r.localAddress }

/-- Sends a response out: each pair that is no header field is left out with a warning. -/
def Service.send {σ : Type} (s : Service σ) (response : Response) : Service σ × Outgoing :=
  ((response.dropped.map Event.fieldDropped).foldl Service.log s, response.outgoing)

/-- Answers one incoming request, unless the application crashes. -/
def App.answer {σ : Type} (app : App σ) (r : Incoming) (service : Service σ) :
    Service σ × Except String Outgoing :=
  match r.request with
  | .error reason =>
    let (service, out) :=
      (service.log (.bodyUnreadable r.remoteAddress reason)).send (.bare .badRequest)
    (service, .ok out)
  | .ok request =>
    match app.handle request service with
    | (service, .error message) => (service, .error message)
    | (service, .ok response) =>
      let (service, out) := service.send response
      (service, .ok out)

end TimedHttp
