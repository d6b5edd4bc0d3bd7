import ShaderFabric.Command.Arguments
import ShaderFabric.Command.Host
import ShaderFabric.Command.Load
import ShaderFabric.Command.Memory
import ShaderFabric.Command.Run
import ShaderFabric.Component
import ShaderFabric.Config.Basic
import ShaderFabric.Config.Duration
import ShaderFabric.Config.Written
import ShaderFabric.Document
import ShaderFabric.Document.Access
import ShaderFabric.Fabric.Basic
import ShaderFabric.Fabric.Written
import ShaderFabric.File.Tree
import ShaderFabric.Json.Printer
import ShaderFabric.Json.Reader
import ShaderFabric.Json.Token
import ShaderFabric.Main
import ShaderFabric.Material.Basic
import ShaderFabric.Material.Expansion
import ShaderFabric.Material.Lifecycle
import ShaderFabric.Material.Node
import ShaderFabric.Material.Program
import ShaderFabric.Material.Resolve
import ShaderFabric.Number.Binary
import ShaderFabric.Number.Decimal
import ShaderFabric.Number.Double
import ShaderFabric.Number.Shortest
import ShaderFabric.Number.Word
import ShaderFabric.Path
import ShaderFabric.Render.Device
import ShaderFabric.Render.Layout
import ShaderFabric.Render.Picture
import ShaderFabric.Render.Renderer
import ShaderFabric.Render.Shader
import ShaderFabric.Report.Material
import ShaderFabric.Report.Value
import ShaderFabric.Table
import ShaderFabric.Template.Basic
import ShaderFabric.Template.Builtin
import ShaderFabric.Template.Library
import ShaderFabric.Text.Blank
import ShaderFabric.Text.Declaration
import ShaderFabric.Text.Hex
import ShaderFabric.Text.Lexeme
import ShaderFabric.Text.Word
import ShaderFabric.Texture.Bitmap
import ShaderFabric.Texture.Checksum
import ShaderFabric.Texture.Decoded
import ShaderFabric.Texture.Deflate
import ShaderFabric.Texture.Fault
import ShaderFabric.Texture.Fetch
import ShaderFabric.Texture.Format
import ShaderFabric.Texture.Ktx
import ShaderFabric.Texture.Png
import ShaderFabric.Texture.Png.Chunk
import ShaderFabric.Texture.Png.Head
import ShaderFabric.Texture.Png.Row
import ShaderFabric.Texture.Pool
import ShaderFabric.Texture.Slot
import ShaderFabric.Toml.Printer
import ShaderFabric.Toml.Reader
import ShaderFabric.Toml.Scalar
import ShaderFabric.Toml.Value
import ShaderFabric.Uniform.Codec
import ShaderFabric.Uniform.Image
import ShaderFabric.Uniform.Literal
import ShaderFabric.Uniform.Value
import ShaderFabric.Proofs.Checks
import ShaderFabric.Proofs.Config.Registration
import ShaderFabric.Proofs.Text.Identifier
import ShaderFabric.Proofs.Fabric.Ordered
import ShaderFabric.Proofs.Fabric.Reading
import ShaderFabric.Proofs.Fabric.RoundTrip
import ShaderFabric.Proofs.Fabric.Lossless
import ShaderFabric.Proofs.Text.Boundary
import ShaderFabric.Proofs.Text.Reference
import ShaderFabric.Proofs.Text.Substitution
import ShaderFabric.Proofs.Text.Rewriting
import ShaderFabric.Proofs.Text.Removal
import ShaderFabric.Proofs.Text.Slice
import ShaderFabric.Proofs.Text.Gap
import ShaderFabric.Proofs.Text.Occurrence
import ShaderFabric.Proofs.Material.Depth
import ShaderFabric.Proofs.Material.Layers
import ShaderFabric.Proofs.Material.Allowance
import ShaderFabric.Proofs.Material.Modes
import ShaderFabric.Proofs.Material.Naming
import ShaderFabric.Proofs.Material.Emission
import ShaderFabric.Proofs.Material.Declaration
import ShaderFabric.Proofs.Material.Text
import ShaderFabric.Proofs.Material.Distinct
import ShaderFabric.Proofs.Material.Independence
import ShaderFabric.Proofs.Material.Lifetime
import ShaderFabric.Proofs.Material.Bindings
import ShaderFabric.Proofs.Material.Inert
import ShaderFabric.Proofs.Material.Origin
import ShaderFabric.Proofs.Material.Legality
import ShaderFabric.Proofs.Material.Comments
import ShaderFabric.Proofs.Material.Uniforms
import ShaderFabric.Proofs.Material.Assignment
import ShaderFabric.Proofs.Texture.Scene
import ShaderFabric.Proofs.Texture.Container
import ShaderFabric.Proofs.Texture.Extent
import ShaderFabric.Proofs.Number.Bytes
import ShaderFabric.Proofs.Number.Finite
import ShaderFabric.Proofs.Json.Number
import ShaderFabric.Proofs.Json.Plain
import ShaderFabric.Proofs.Json.RoundTrip
import ShaderFabric.Proofs.Json.Scan
import ShaderFabric.Proofs.Texture.RoundTrip
import ShaderFabric.Proofs.Render.Placement
import ShaderFabric.Proofs.Render.Packing
import ShaderFabric.Proofs.Render.Lines
import ShaderFabric.Proofs.Render.Programs
import ShaderFabric.Proofs.Render.Reading
import ShaderFabric.Proofs.Render.Wrapping
import ShaderFabric.Proofs.Render.Expansion
import ShaderFabric.Proofs.Render.Hygiene
import ShaderFabric.Proofs.Template.Growth
import ShaderFabric.Proofs.Texture.Selection
import ShaderFabric.Proofs.Texture.Cube
import ShaderFabric.Proofs.Texture.Kind
import ShaderFabric.Proofs.Render.Agreement
import ShaderFabric.Proofs.Uniform.Object
import ShaderFabric.Proofs.Uniform.Shape
import ShaderFabric.Proofs.Text.Standing
import ShaderFabric.Proofs.Text.Byte
import ShaderFabric.Proofs.Text.Scanner
import ShaderFabric.Proofs.Text.Scanner
