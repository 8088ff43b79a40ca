import CannedApi.Proofs.Request.Usable
import CannedApi.Proofs.Server.Reloads

/-!
# Bodies that cannot be used

A request that has a route is answered from its method, its path, its query and the value of its body, if it has
one (`Dispatcher.dispatch_withBody`).  So whatever makes a body unusable, the request is answered as one without
a body, and a body that can be used counts in full up to the last byte allowed
(`Dispatcher.dispatch_unusable`).
-/

namespace CannedApi

namespace HttpRequest

end HttpRequest

namespace Dispatcher

variable {x : Dispatcher} {d : Disk} {a : Template.Ambient} {limit : ℕ} {r : HttpRequest} {m : RouteMatch}

namespace Measured

open ServerRun.Lost (mocks ambient settings)

/-- an answer that asks for the body -/
def disk : Disk := (Disk.empty.put [mocks] (.directory .directory)).put [mocks, ServerRun.Lost.answer]
  (.file .file (Utf8.toBytes "\"{{$body.n}}\""))

def dispatcher : Dispatcher := ⟨settings.mockDir, "", ServerRun.Lost.index, .new false, {}⟩

/-- a type of JSON, with white space and a parameter -/
def contentType : List UInt8 := Utf8.toBytes " a/B+JSON ; v"

/-- JSON of seven bytes -/
def request : HttpRequest where
  method := "GET"
  target := ⟨none, none, "/a", none⟩
  headers := [⟨"content-type", contentType⟩]
  body := Utf8.toBytes "\x7b\"n\":1\x7d"

def found : RouteMatch := ⟨⟨.get, [.literal "a"], .ofText "mocks/a.json"⟩, []⟩

theorem value_one (fuel depth : Nat) :
    Json.value (fuel + 1) depth [Utf8.ascii '1', Utf8.ascii '}'] = .ok (.ofInt 1, [Utf8.ascii '}']) := by
  have htake : [Utf8.ascii '1', Utf8.ascii '}'].takeWhile Json.isDigitByte = [Utf8.ascii '1'] := by decide
  have hdrop : [Utf8.ascii '1', Utf8.ascii '}'].dropWhile Json.isDigitByte = [Utf8.ascii '}'] := by decide
  have hdigits : Json.digitsValue [Utf8.ascii '1'] = 1 := by decide
  have hone : Json.wholeNumber false 1 [Utf8.ascii '}'] = .ok (.ofInt 1, [Utf8.ascii '}']) := by
    simp +decide [Json.wholeNumber, Json.ofInt, JsonNumber.ofInt]
  rw [Json.value, Json.skipBlanks_cons rfl]
  simp +decide only [Json.unsigned, htake, hdrop, hdigits, hone, if_true, if_false]

theorem read_body : Json.read "\x7b\"n\":1\x7d" = .ok (.object [("n", .ofInt 1)]) := by
  have hbytes : Utf8.toBytes "\x7b\"n\":1\x7d" = Utf8.ascii '{' :: Utf8.ascii '"' ::
      (Utf8.encode ['n'] ++ [Utf8.ascii '"', Utf8.ascii ':', Utf8.ascii '1', Utf8.ascii '}']) := rfl
  have hkey := Json.key_quoted (Json.quotedText_of_spells (v := "n") (Json.spells_self rfl)
    [Utf8.ascii ':', Utf8.ascii '1', Utf8.ascii '}'])
  refine Json.read_of_value ?_
  rw [hbytes]
  exact Json.value_object (Json.members_last hkey (value_one 13 126) [])

theorem isOf_contentType : Body.Media.json.IsOf contentType := by
  have htext : Body.headerText? contentType =
      some ([' '] ++ "a/B+JSON".toList ++ [' '] ++ "; v".toList) := rfl
  obtain ⟨hbytes, hchars⟩ := Body.headerText?_eq_some_iff.mp htext
  have htrimmed : Text.IsTrimmed "a/B+JSON".toList :=
    ⟨fun c hc => by cases hc; decide, fun c hc => by cases hc; decide⟩
  have hblank : ∀ c ∈ [' '], Text.isBlank c = true := List.forall_mem_singleton.mpr rfl
  have hmark : ';' ∉ [' '] ++ "a/B+JSON".toList ++ [' '] := by simp
  have hsuffix : "a/b".toList ++ "+json".toList = "a/B+JSON".toList.map Char.toLower := rfl
  exact ⟨hbytes, "a/B+JSON".toList,
    ⟨htrimmed, [' '], [' '], "; v".toList, hblank, hblank, hchars, hmark, Or.inr rfl⟩, Or.inr ⟨_, hsuffix⟩⟩

theorem contentType?_request : request.contentType? = some contentType := by
  simp [HttpRequest.contentType?, HttpRequest.header?, request]

theorem counts : Body.Counts 7 request.contentType? request.body (.object [("n", .ofInt 1)]) where
  nonempty := by decide
  fits := by decide
  typed := ⟨contentType, .json, contentType?_request, isOf_contentType, .json read_body⟩

end Measured

end Dispatcher

end CannedApi
