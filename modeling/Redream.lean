import Redream.Tr.Types
import Redream.Tr.Texture
import Redream.Tr.Surface
import Redream.Tr.Parse
import Redream.Tr.Indices
import Redream.Tr.Convert
import Redream.Tr.FrontEnd
import Redream.Proofs.Indices
import Redream.Proofs.Strips
import Redream.Proofs.Sort
import Redream.Proofs.Render
import Redream.Proofs.Texture
import Redream.Proofs.Handlers
import Redream.Proofs.Stream
import Redream.Proofs.Convert
import Redream.Proofs.Capacity
import Redream.Spec.Strips
import Redream.Proofs.Refinement
import Redream.Proofs.Draw
import Redream.Proofs.Sprite
import Redream.Proofs.Bounds
import Redream.Proofs.Limits
import Redream.Proofs.Layout
import Redream.Proofs.Trace
import Redream.Proofs.Complete
